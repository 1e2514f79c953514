import CodeFence.Fence.Block
import CodeFence.Proofs.Fence.Opener

set_option autoImplicit false

namespace CodeFence

def Located.after (done : Text) : Located → Located
  | .clear => .clear
  | .unclosed opening => .unclosed { opening with before := done ++ opening.before }
  | .closed span => .closed { span with before := done ++ span.before }

structure Opening.Leftmost (family : Family) (text : Text) (opening : Opening) : Prop where
  parts : text = opening.before ++ (family.opener opening.language ++ opening.behind)
  least : ∀ before language behind, text = before ++ (family.opener language ++ behind) →
    opening.before.byteLength ≤ Text.byteLength before

namespace Family

-- No opener stands in the text, and none begins in it whatever follows.
def Sealed (family : Family) (text : Text) : Prop :=
  family.Clear text ∧ ∀ c ∈ text.getLast?, family.Outside c

theorem locate_clear_iff {family : Family} {text : Text} : family.locate text = .clear ↔ family.Clear text := by
  rw [← findOpening_eq_none_iff]
  unfold locate
  cases family.findOpening? text with
  | none => simp
  | some opening => cases cut : Text.cut? family.token opening.behind <;> simp [cut]

theorem locate_unclosed_iff {family : Family} {text : Text} {opening : Opening} :
    family.locate text = .unclosed opening ↔
      family.findOpening? text = some opening ∧ opening.behind.Lacks family.token := by
  rw [← Text.cut_eq_none_iff]
  unfold locate
  cases family.findOpening? text with
  | none => simp
  | some found =>
      cases cut : Text.cut? family.token found.behind with
      | none =>
          simp only [cut, Located.unclosed.injEq, Option.some.injEq]
          exact ⟨fun same => ⟨same, same ▸ cut⟩, fun both => both.1⟩
      | some parts =>
          simp only [cut, reduceCtorEq, Option.some.injEq, false_iff, not_and]
          rintro rfl
          simp [cut]

theorem locate_closed_iff {family : Family} {text : Text} {span : Span} :
    family.locate text = .closed span ↔
      ∃ rest, family.findOpening? text = some ⟨span.before, span.language, rest⟩ ∧
        Text.cut? family.token rest = some (span.body, span.behind) := by
  obtain ⟨before, language, body, behind⟩ := span
  unfold locate
  cases family.findOpening? text with
  | none => simp
  | some found =>
      obtain ⟨first, tag, rest⟩ := found
      cases cut : Text.cut? family.token rest with
      | none =>
          simp only [cut, reduceCtorEq, Option.some.injEq, Opening.mk.injEq, false_iff, not_exists, not_and]
          rintro other ⟨-, -, rfl⟩
          simp [cut]
      | some parts =>
          obtain ⟨inner, last⟩ := parts
          simp only [cut, Located.closed.injEq, Span.mk.injEq, Option.some.injEq, Opening.mk.injEq]
          constructor
          · rintro ⟨rfl, rfl, rfl, rfl⟩
            exact ⟨rest, ⟨rfl, rfl, rfl⟩, cut⟩
          · rintro ⟨other, ⟨rfl, rfl, rfl⟩, same⟩
            simpa [cut] using same

theorem locate_before_clear {family : Family} {text : Text} {span : Span} (located : family.locate text = .closed span) :
    family.Clear span.before := by
  obtain ⟨rest, found, -⟩ := locate_closed_iff.mp located
  exact findOpening_first found

theorem locate_body_lacks {family : Family} {text : Text} {span : Span} (located : family.locate text = .closed span) :
    span.body.Lacks family.token := by
  obtain ⟨rest, -, cut⟩ := locate_closed_iff.mp located
  exact Text.cut_first family.token_marked cut

section Apart

variable {family : Family} {c : Char} (outside : family.Outside c)

include outside in
theorem locate_closed_apart {before : Text} {span : Span} (located : family.locate before = .closed span) (behind : Text) :
    family.locate (before ++ c :: behind) = .closed { span with behind := span.behind ++ c :: behind } := by
  obtain ⟨rest, found, cut⟩ := locate_closed_iff.mp located
  refine locate_closed_iff.mpr ⟨rest ++ c :: behind, ?_, ?_⟩
  · rw [findOpening_apart outside, found]
    rfl
  · rw [Text.cut_apart (outside_token outside) family.token_marked, cut]
    rfl

include outside in
theorem locate_unclosed_apart {before : Text} {opening : Opening} (located : family.locate before = .unclosed opening)
    (behind : Text) : family.locate (before ++ c :: behind) =
      match Text.cut? family.token behind with
      | none => .unclosed { opening with behind := opening.behind ++ c :: behind }
      | some parts => .closed ⟨opening.before, opening.language, opening.behind ++ c :: parts.1, parts.2⟩ := by
  obtain ⟨found, lacks⟩ := locate_unclosed_iff.mp located
  have cut := Text.cut_apart (outside_token outside) family.token_marked opening.behind behind
  rw [Text.cut_eq_none_iff.mpr lacks] at cut
  unfold locate
  rw [findOpening_apart outside, found]
  cases later : Text.cut? family.token behind with
  | none => simp [cut, later]
  | some parts => simp [cut, later]

include outside in
theorem locate_clear_apart {before : Text} (clear : family.Clear before) (behind : Text) :
    family.locate (before ++ c :: behind) = (family.locate behind).after (before ++ [c]) := by
  unfold locate
  rw [findOpening_apart outside, findOpening_eq_none_iff.mpr clear]
  cases family.findOpening? behind with
  | none => rfl
  | some opening => cases cut : Text.cut? family.token opening.behind <;> simp [cut, Located.after]

end Apart

theorem locate_between {family : Family} {first last : Char} (opens : family.Outside first) (closes : family.Outside last)
    {front inner : Text} {span : Span} (clear : family.Clear front) (located : family.locate inner = .closed span)
    (rest : Text) : family.locate (front ++ first :: (inner ++ last :: rest)) =
      .closed ⟨front ++ first :: span.before, span.language, span.body, span.behind ++ last :: rest⟩ := by
  rw [locate_clear_apart opens clear, locate_closed_apart closes located, Located.after]
  simp

theorem locate_sealed {family : Family} {done : Text} (closed : family.Sealed done) (rest : Text) :
    family.locate (done ++ rest) = (family.locate rest).after done := by
  obtain ⟨clear, final⟩ := closed
  rcases List.eq_nil_or_concat done with rfl | ⟨before, c, rfl⟩
  · rw [List.nil_append]
    cases family.locate rest <;> rfl
  · rw [List.concat_eq_append] at clear final ⊢
    have outside : family.Outside c := final c (by simp)
    have shorter : family.Clear before := clear_part clear (List.prefix_append before [c]).isInfix
    simpa using locate_clear_apart outside shorter rest

theorem sealed_clear {family : Family} {done gap : Text} (closed : family.Sealed done) (clear : family.Clear gap) :
    family.Clear (done ++ gap) := by
  rw [← locate_clear_iff, locate_sealed closed, locate_clear_iff.mpr clear]
  rfl

theorem locate_behind_clear {family : Family} {done rest : Text} {span : Span} (clear : family.Clear done)
    (located : family.locate (done ++ rest) = .closed span) :
    ∃ used, rest = used ++ (span.body ++ family.token ++ span.behind) := by
  have parts := locate_parts located
  simp only [Span.splice, Span.raw, List.append_assoc] at parts
  rw [← List.append_assoc family.token, ← List.append_assoc span.before] at parts
  rcases List.append_eq_append_iff.mp parts with ⟨longer, same, tail⟩ | ⟨shorter, same, -⟩
  · exact ⟨longer, by simpa using tail⟩
  · have inside : family.opener span.language <:+: done :=
      ⟨span.before, shorter, by rw [same]; rfl⟩
    exact absurd inside (clear span.language)

theorem locate_behind_shorter {family : Family} {done rest : Text} {span : Span} (clear : family.Clear done)
    (located : family.locate (done ++ rest) = .closed span) : span.behind.length < rest.length := by
  obtain ⟨used, split⟩ := locate_behind_clear clear located
  have token := List.length_pos_iff.mpr family.token_marked
  have lengths := congrArg List.length split
  simp only [List.length_append] at lengths
  omega

theorem opening_written (family : Family) (language : Language) (rest : Text) :
    family.opening? (family.opener language ++ '\n' :: rest) = some (language, '\n' :: rest) := by
  cases family <;> cases language <;> rfl

theorem token_size (family : Family) : family.token.length = 3 := by
  cases family <;> rfl

theorem tag_apart (family : Family) (language : Language) : ∀ c ∈ language.tag, c ∉ family.token := by
  cases family <;> cases language <;> decide

-- An opener that begins in front of a token does not reach into it: a character of the tag would be the token's.
theorem opening_early {family : Family} {c : Char} {gap : Text} (clear : family.Clear (c :: gap)) (behind : Text) :
    family.opening? (c :: gap ++ (family.token ++ behind)) = none := by
  rw [opening_eq_none_iff]
  intro language found
  have size := family.token_size
  have whole : (family.opener language).length = 3 + language.tag.length := by rw [opener, List.length_append, size]
  have tagged : 0 < language.tag.length := List.length_pos_iff.mpr (by cases language <;> decide)
  obtain ⟨place, far, passed, near, least⟩ : ∃ place, 3 ≤ place ∧ (c :: gap).length ≤ place ∧
      place < (c :: gap).length + 3 ∧ (place = 3 ∨ place = (c :: gap).length) := by
    have some : 1 ≤ (c :: gap).length := Nat.le_add_left 1 gap.length
    by_cases short : (c :: gap).length ≤ 3
    · exact ⟨3, by omega, short, by omega, Or.inl rfl⟩
    · exact ⟨(c :: gap).length, by omega, by omega, by omega, Or.inr rfl⟩
  by_cases within : place < (family.opener language).length
  · have text : (c :: gap ++ (family.token ++ behind))[place]? = family.token[place - (c :: gap).length]? := by
      rw [List.getElem?_append_right passed, List.getElem?_append_left (by omega)]
    have tag : (family.opener language)[place]? = language.tag[place - 3]? := by
      rw [opener, List.getElem?_append_right (by omega), size]
    have same := List.prefix_iff_getElem?.mp found place within
    rw [← List.getElem?_eq_getElem within, text, tag, List.getElem?_eq_getElem (by omega)] at same
    exact tag_apart family language _ (List.mem_of_getElem? same.symm) (List.getElem_mem _)
  · have fits : (family.opener language).length ≤ (c :: gap).length := by omega
    exact clear language (List.prefix_of_prefix_length_le found (List.prefix_append _ _) fits).isInfix

theorem findOpening_least {family : Family} {text : Text} {found : Opening} (located : family.findOpening? text = some found) :
    found.Leftmost family text := by
  have parts := findOpening_parts located
  rw [List.append_assoc, List.append_assoc] at parts
  refine ⟨by rw [parts, opener, List.append_assoc], fun before language behind split => ?_⟩
  rcases List.append_eq_append_iff.mp (parts.symm.trans split) with ⟨longer, same, -⟩ | ⟨shorter, same, tail⟩
  · rw [same, Text.byteLength_append]
    exact Nat.le_add_right _ _
  · cases shorter with
    | nil => rw [same, List.append_nil]
    | cons c gap =>
        have clear := clear_part (findOpening_first located) ⟨before, [], by rw [same, List.append_nil]⟩
        have early := opening_eq_none_iff.mp (opening_early clear (found.language.tag ++ found.behind)) language
        exact absurd ⟨behind, tail⟩ early

theorem findOpening_gap {family : Family} {gap : Text} (clear : family.Clear gap) (language : Language) (rest : Text) :
    family.findOpening? (gap ++ (family.opener language ++ '\n' :: rest)) = some ⟨gap, language, '\n' :: rest⟩ := by
  induction gap with
  | nil =>
      have here := opening_written family language rest
      obtain ⟨c, tail, shape⟩ := List.exists_cons_of_ne_nil (family.opener_marked language)
      rw [List.nil_append]
      rw [shape, List.cons_append] at here ⊢
      simp [findOpening?, here]
  | cons c gap ih =>
      have early := opening_early clear (language.tag ++ '\n' :: rest)
      rw [← List.append_assoc family.token] at early
      change family.opening? (c :: (gap ++ (family.opener language ++ '\n' :: rest))) = none at early
      rw [List.cons_append, findOpening?, early, ih (clear_part clear (List.suffix_cons c gap).isInfix)]
      rfl

theorem newline_outside (family : Family) : family.Outside '\n' := by
  cases family <;> decide

theorem locate_written {family : Family} {gap : Text} {block : Block} (around : family.Clear gap)
    (inside : block.code.Lacks family.token) (behind : Text) :
    family.locate (gap ++ (block.write family ++ behind)) =
      .closed ⟨gap, block.language, '\n' :: block.code ++ ['\n'], behind⟩ := by
  have outside := outside_token family.newline_outside
  have opened := findOpening_gap around block.language (block.code ++ '\n' :: (family.token ++ behind))
  refine locate_closed_iff.mpr ⟨'\n' :: (block.code ++ '\n' :: (family.token ++ behind)), ?_, ?_⟩
  · simpa [Block.write, opener] using opened
  · have body : Text.Lacks ('\n' :: block.code) family.token :=
      (@Text.lacks_apart family.token [] block.code '\n' outside).mpr ⟨Text.lacks_nil family.token_marked, inside⟩
    have cut := Text.cut_apart outside family.token_marked ('\n' :: block.code) (family.token ++ behind)
    rw [Text.cut_eq_none_iff.mpr body, Text.cut_here family.token_marked] at cut
    simpa using cut

end Family
end CodeFence
