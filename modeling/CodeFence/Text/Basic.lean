
set_option autoImplicit false

namespace CodeFence

abbrev Text := List Char

namespace Text

def strip? : (mark text : Text) → Option Text
  | [], text => some text
  | _ :: _, [] => none
  | m :: mark, c :: text => if m = c then strip? mark text else none

theorem strip_append (mark rest : Text) : strip? mark (mark ++ rest) = some rest := by
  induction mark with
  | nil => rfl
  | cons m mark ih => simp [strip?, ih]

theorem strip_eq_some_iff {mark text rest : Text} : strip? mark text = some rest ↔ text = mark ++ rest := by
  constructor
  · intro found
    fun_induction strip? mark text with
    | case1 text => simpa using found
    | case2 => simp at found
    | case3 mark c text ih => simp [ih found]
    | case4 => simp at found
  · rintro rfl
    exact strip_append mark rest

def cut? (mark : Text) : Text → Option (Text × Text)
  | [] => if mark = [] then some ([], []) else none
  | c :: rest =>
      match strip? mark (c :: rest) with
      | some behind => some ([], behind)
      | none => (cut? mark rest).map fun parts => (c :: parts.1, parts.2)

theorem cut_parts {mark text before behind : Text} (found : cut? mark text = some (before, behind)) :
    text = before ++ mark ++ behind := by
  induction text generalizing before behind with
  | nil =>
      by_cases empty : mark = [] <;> simp_all [cut?]
  | cons c rest ih =>
      cases here : strip? mark (c :: rest) with
      | some after =>
          simp only [cut?, here, Option.some.injEq, Prod.mk.injEq] at found
          obtain ⟨rfl, rfl⟩ := found
          simpa using strip_eq_some_iff.mp here
      | none =>
          simp only [cut?, here, Option.map_eq_some_iff, Prod.mk.injEq] at found
          obtain ⟨parts, inner, rfl, rfl⟩ := found
          simp [ih inner]

def byteLength : Text → Nat
  | [] => 0
  | c :: rest => c.utf8Size + byteLength rest

theorem byteLength_append (a b : Text) : byteLength (a ++ b) = byteLength a + byteLength b := by
  induction a with
  | nil => simp [byteLength]
  | cons c rest ih => simp only [List.cons_append, byteLength, ih, Nat.add_assoc]

end Text
end CodeFence
