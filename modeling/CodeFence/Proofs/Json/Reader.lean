import CodeFence.Proofs.Json.Grammar

set_option autoImplicit false

namespace CodeFence.Json

theorem readValue_skipSpace (bound : Nat) (text : Text) : readValue bound (skipSpace text) = readValue bound text := by
  cases bound with
  | zero => rfl
  | succ bound => simp only [readValue, skipSpace_idem]

theorem readItems_skipSpace (bound : Nat) (text : Text) : readItems bound (skipSpace text) = readItems bound text := by
  cases bound with
  | zero => rfl
  | succ bound => simp only [readItems, readValue_skipSpace]

theorem readMembers_skipSpace (bound : Nat) (text : Text) :
    readMembers bound (skipSpace text) = readMembers bound text := by
  cases bound with
  | zero => rfl
  | succ bound => simp only [readMembers, skipSpace_idem]

theorem readValue_word {spelling : Text} {json : Json} (known : (spelling, json) ∈ words) (bound : Nat) (rest : Text) :
    readValue (bound + 1) (spelling ++ rest) = some (json, rest) := by
  simp only [words, List.mem_cons, List.not_mem_nil, or_false, Prod.mk.injEq] at known
  rcases known with ⟨rfl, rfl⟩ | ⟨rfl, rfl⟩ | ⟨rfl, rfl⟩
  all_goals simp [readValue, skipSpace, isSpace, readWord, words, Text.strip?]

theorem readValue_number {spelling rest : Text} (spelled : NumberSpelled spelling) (ended : Ended rest) (bound : Nat) :
    readValue (bound + 1) (spelling ++ rest) = some (.number spelling, rest) := by
  have found := readNumber_spelled spelled ended
  obtain ⟨c, tail, rfl, opens⟩ := spelled.head
  have solid : isSpace c = false := by
    refine (Opens.solid (opens.imp_left ?_)).1
    rintro rfl
    simp
  have unlike : ∀ other ∈ ['"', '[', '\x7b', 'n', 't', 'f'], c ≠ other := by
    rintro other known rfl
    simp only [List.mem_cons, List.not_mem_nil, or_false] at known
    rcases known with rfl | rfl | rfl | rfl | rfl | rfl
    all_goals exact absurd opens (by decide)
  simp only [List.forall_mem_cons, List.not_mem_nil, false_implies, implies_true, and_true] at unlike
  obtain ⟨unquoted, unbracketed, unbraced, n, t, f⟩ := unlike
  have wordless : readWord (c :: (tail ++ rest)) = none := by
    simp [readWord, words, Text.strip?, n.symm, t.symm, f.symm]
  rw [List.cons_append] at found ⊢
  simp [readValue, skipSpace_cons solid, unquoted, unbracketed, unbraced, wordless, found]

theorem readValue_string {parts : List Unit16} {inner : Text} (spelled : UnitsSpelled parts inner) (bound : Nat) (rest : Text) :
    readValue (bound + 1) ('"' :: inner ++ ['"'] ++ rest) = some (.string (assemble parts), rest) := by
  simp [readValue, skipSpace_cons, isSpace, readString_spelled spelled]

theorem readValue_emptyArray {gap : Text} (blank : Blank gap) (bound : Nat) (rest : Text) :
    readValue (bound + 1) ('[' :: gap ++ [']'] ++ rest) = some (.array [], rest) := by
  simp [readValue, skipSpace_cons, isSpace, skipSpace_blank blank]

theorem readValue_emptyObject {gap : Text} (blank : Blank gap) (bound : Nat) (rest : Text) :
    readValue (bound + 1) ('\x7b' :: gap ++ ['\x7d'] ++ rest) = some (.object [], rest) := by
  simp [readValue, skipSpace_cons, isSpace, skipSpace_blank blank]

theorem readItems_last {text gap rest : Text} {item : Json} {bound : Nat} (blank : Blank gap)
    (found : readValue bound text = some (item, gap ++ ']' :: rest)) :
    readItems (bound + 1) text = some ([item], rest) := by
  simp [readItems, found, skipSpace_blank blank, skipSpace_cons (c := ']') rfl]

theorem readItems_more {text gap more rest : Text} {item : Json} {items : List Json} {bound : Nat} (blank : Blank gap)
    (found : readValue bound text = some (item, gap ++ ',' :: more))
    (others : readItems bound more = some (items, rest)) :
    readItems (bound + 1) text = some (item :: items, rest) := by
  simp [readItems, found, skipSpace_blank blank, skipSpace_cons (c := ',') rfl, others]

theorem readMembers_last {before inner behind valued gap rest : Text} {parts : List Unit16} {value : Json} {bound : Nat}
    (front : Blank before) (name : UnitsSpelled parts inner) (back : Blank behind) (blank : Blank gap)
    (found : readValue bound valued = some (value, gap ++ '\x7d' :: rest)) :
    readMembers (bound + 1) (before ++ '"' :: (inner ++ '"' :: (behind ++ ':' :: valued)))
      = some ([(assemble parts, value)], rest) := by
  simp [readMembers, skipSpace_blank front, skipSpace_blank back, skipSpace_blank blank, skipSpace_cons,
    isSpace, readString_spelled name, found]

theorem readMembers_more {before inner behind valued gap more rest : Text} {parts : List Unit16} {value : Json}
    {members : List (Option Text × Json)} {bound : Nat}
    (front : Blank before) (name : UnitsSpelled parts inner) (back : Blank behind) (blank : Blank gap)
    (found : readValue bound valued = some (value, gap ++ ',' :: more))
    (others : readMembers bound more = some (members, rest)) :
    readMembers (bound + 1) (before ++ '"' :: (inner ++ '"' :: (behind ++ ':' :: valued)))
      = some ((assemble parts, value) :: members, rest) := by
  simp [readMembers, skipSpace_blank front, skipSpace_blank back, skipSpace_blank blank, skipSpace_cons,
    isSpace, readString_spelled name, found, others]

theorem Ended.blank {gap rest : Text} (blank : Blank gap) (ended : Ended rest) : Ended (gap ++ rest) := by
  cases gap with
  | nil => exact ended
  | cons c gap =>
      intro d here
      obtain rfl : c = d := by simpa using here
      exact .inl (blank c (by simp))

-- Neither an array nor an object closes where an item or a member starts.
theorem Padded.head {json : Json} {text : Text} (spelled : Padded json text) (rest : Text) :
    ∃ c tail, skipSpace (text ++ rest) = c :: tail ∧ c ≠ ']' := by
  cases spelled with
  | gaps front spelled back =>
      obtain ⟨c, tail, rfl, opens⟩ := spelled.head
      exact ⟨c, _, by simp [skipSpace_blank front, skipSpace_cons opens.solid.1]; rfl, opens.solid.2⟩

theorem MemberSpelled.head {member : Option Text × Json} {text : Text} (spelled : MemberSpelled member text) (rest : Text) :
    ∃ tail, skipSpace (text ++ rest) = '"' :: tail := by
  cases spelled with
  | named front name back spelled => simp [skipSpace_blank front, skipSpace_cons, isSpace]

theorem ItemsSpelled.head {items : List Json} {inner : Text} (spelled : ItemsSpelled items inner) (rest : Text) :
    ∃ c tail, skipSpace (inner ++ rest) = c :: tail ∧ c ≠ ']' := by
  cases spelled with
  | last spelled => exact spelled.head rest
  | more spelled others => simpa using spelled.head _

theorem MembersSpelled.head {members : List (Option Text × Json)} {inner : Text}
    (spelled : MembersSpelled members inner) (rest : Text) : ∃ tail, skipSpace (inner ++ rest) = '"' :: tail := by
  cases spelled with
  | last spelled => exact spelled.head rest
  | more spelled others => simpa using spelled.head _

theorem readValue_array {items : List Json} {inner rest : Text} {bound : Nat} (spelled : ItemsSpelled items inner)
    (found : readItems bound (inner ++ ']' :: rest) = some (items, rest)) :
    readValue (bound + 1) ('[' :: inner ++ [']'] ++ rest) = some (.array items, rest) := by
  obtain ⟨c, tail, front, other⟩ := spelled.head (']' :: rest)
  rw [← readItems_skipSpace, front] at found
  simp [readValue, skipSpace_cons, isSpace, front, other, found]

theorem readValue_object {members : List (Option Text × Json)} {inner rest : Text} {bound : Nat}
    (spelled : MembersSpelled members inner)
    (found : readMembers bound (inner ++ '\x7d' :: rest) = some (members, rest)) :
    readValue (bound + 1) ('\x7b' :: inner ++ ['\x7d'] ++ rest) = some (.object members, rest) := by
  obtain ⟨tail, front⟩ := spelled.head ('\x7d' :: rest)
  rw [← readMembers_skipSpace, front] at found
  simp [readValue, skipSpace_cons, isSpace, front, found]

theorem readValue_padded {before text behind rest : Text} {json : Json} {bound : Nat} (front : Blank before)
    (found : readValue bound (text ++ (behind ++ rest)) = some (json, behind ++ rest)) :
    readValue bound (before ++ text ++ behind ++ rest) = some (json, behind ++ rest) := by
  rw [List.append_assoc, List.append_assoc, ← readValue_skipSpace, skipSpace_blank front, readValue_skipSpace, found]

theorem Spelled.filled {json : Json} {text : Text} (spelled : Spelled json text) : 0 < text.length := by
  obtain ⟨c, tail, rfl, -⟩ := spelled.head
  simp

-- The bound goes down by two for an array or an object with what it holds, and its brackets take two
-- characters, so twice the length of a text is never used up.
mutual
theorem Spelled.read {json : Json} {text : Text} (spelled : Spelled json text) (bound : Nat) (rest : Text)
    (enough : 2 * text.length ≤ bound) (ended : Ended rest) : readValue bound (text ++ rest) = some (json, rest) := by
  obtain ⟨bound, rfl⟩ : ∃ less, bound = less + 1 := Nat.exists_eq_add_one.mpr (by have := spelled.filled; omega)
  cases spelled with
  | word known => exact readValue_word known bound rest
  | number spelled => exact readValue_number spelled ended bound
  | string spelled => exact readValue_string spelled bound rest
  | emptyArray blank => exact readValue_emptyArray blank bound rest
  | array spelled => exact readValue_array spelled (spelled.read bound rest (by simp at enough; omega))
  | emptyObject blank => exact readValue_emptyObject blank bound rest
  | object spelled => exact readValue_object spelled (spelled.read bound rest (by simp at enough; omega))
termination_by (bound, 0)

theorem Padded.read {json : Json} {text : Text} (spelled : Padded json text) (bound : Nat) (rest : Text)
    (enough : 2 * text.length ≤ bound) (ended : Ended rest) :
    ∃ gap, Blank gap ∧ readValue bound (text ++ rest) = some (json, gap ++ rest) := by
  cases spelled with
  | gaps front spelled back =>
      rename_i before text behind
      have found := spelled.read bound (behind ++ rest) (by simp at enough; omega) (ended.blank back)
      exact ⟨behind, back, readValue_padded front found⟩
termination_by (bound, 1)

theorem ItemsSpelled.read {items : List Json} {inner : Text} (spelled : ItemsSpelled items inner) (bound : Nat)
    (rest : Text) (enough : 2 * inner.length + 1 ≤ bound) :
    readItems bound (inner ++ ']' :: rest) = some (items, rest) := by
  obtain ⟨bound, rfl⟩ : ∃ less, bound = less + 1 := Nat.exists_eq_add_one.mpr (by omega)
  cases spelled with
  | last spelled =>
      obtain ⟨gap, blank, found⟩ := spelled.read bound (']' :: rest) (by omega) (by simp [Ended, Closes])
      exact readItems_last blank found
  | more spelled others =>
      rename_i item items text inner
      simp only [List.length_append, List.length_cons] at enough
      have ended : Ended (',' :: (inner ++ ']' :: rest)) := by simp [Ended, Closes]
      obtain ⟨gap, blank, found⟩ := spelled.read bound _ (by omega) ended
      rw [List.append_assoc, List.cons_append]
      exact readItems_more blank found (others.read bound rest (by omega))
termination_by (bound, 0)

theorem MembersSpelled.read {members : List (Option Text × Json)} {inner : Text} (spelled : MembersSpelled members inner)
    (bound : Nat) (rest : Text) (enough : 2 * inner.length + 1 ≤ bound) :
    readMembers bound (inner ++ '\x7d' :: rest) = some (members, rest) := by
  obtain ⟨bound, rfl⟩ : ∃ less, bound = less + 1 := Nat.exists_eq_add_one.mpr (by omega)
  cases spelled with
  | last spelled =>
      cases spelled with
      | named front name back spelled =>
          simp only [List.length_append, List.length_cons] at enough
          obtain ⟨gap, blank, found⟩ := spelled.read bound ('\x7d' :: rest) (by omega) (by simp [Ended, Closes])
          simpa using readMembers_last front name back blank found
  | more spelled others =>
      cases spelled with
      | named front name back spelled =>
          rename_i inner _ _ _ _ _ _
          simp only [List.length_append, List.length_cons] at enough
          have ended : Ended (',' :: (inner ++ '\x7d' :: rest)) := by simp [Ended, Closes]
          obtain ⟨gap, blank, found⟩ := spelled.read bound _ (by omega) ended
          simpa using readMembers_more front name back blank found (others.read bound rest (by omega))
termination_by (bound, 0)
end

theorem parse_spelled {json : Json} {text : Text} (spelled : Padded json text) : parse? text = some json := by
  obtain ⟨gap, blank, found⟩ := spelled.read (2 * text.length + 1) [] (by omega) (by simp [Ended])
  have passed : skipSpace gap = [] := by simpa [skipSpace] using skipSpace_blank blank []
  rw [List.append_nil, List.append_nil] at found
  simp [parse?, found, passed]

end CodeFence.Json
