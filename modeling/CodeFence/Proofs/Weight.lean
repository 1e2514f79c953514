import CodeFence.Highlighter
import CodeFence.Proofs.Directive
import CodeFence.Proofs.Text.Occurrences

set_option autoImplicit false

namespace CodeFence

namespace Text

def weight (text : Text) : Nat :=
  text.count '~' + 3 * occurrences Placeholder.tildeFence text

theorem weight_nil : weight [] = 0 := rfl

theorem weight_lacking {text : Text} (lacks : text.Lacks Placeholder.tildeFence) : text.weight = text.count '~' := by
  simp [weight, occurrences_lacking lacks]

theorem weight_append (a b : Text) : a.weight + b.weight ≤ weight (a ++ b) := by
  have places := occurrences_append Placeholder.tildeFence a b
  simp only [weight, List.count_append]
  omega

theorem weight_seam (a b : Text) : weight (a ++ b) ≤ a.weight + b.weight + 3 := by
  have once : '&' ∉ "triptilde;".toList := by decide
  have places : occurrences Placeholder.tildeFence (a ++ b) ≤
      occurrences Placeholder.tildeFence a + occurrences Placeholder.tildeFence b + 1 := occurrences_seam once a b
  simp only [weight, List.count_append]
  omega

theorem weight_part {part text : Text} (inside : part <:+: text) : part.weight ≤ text.weight := by
  have tildes := inside.sublist.count_le '~'
  have places := occurrences_part Placeholder.tildeFence inside
  simp only [weight]
  omega

theorem weight_apart {c : Char} (plain : c ≠ '~') (outside : c ∉ Placeholder.tildeFence) (before behind : Text) :
    weight (before ++ c :: behind) = before.weight + behind.weight := by
  have places := occurrences_apart outside (by decide) before behind
  have tildes : List.count '~' (c :: behind) = behind.count '~' := List.count_cons_of_ne plain
  simp only [weight, List.count_append, tildes, places]
  omega

-- Brackets keep what they enclose apart from its surroundings.
theorem weight_bracketed (before inner behind : Text) :
    weight (before ++ ('<' :: inner ++ ['>']) ++ behind) = before.weight + weight ('<' :: inner ++ ['>']) + behind.weight := by
  have first (front text : Text) := @weight_apart '<' (by decide) (by decide) front text
  have last (text rest : Text) := @weight_apart '>' (by decide) (by decide) text rest
  have alone : weight ('<' :: inner ++ ['>']) = inner.weight := by
    have opened : weight ('<' :: (inner ++ ['>'])) = weight [] + weight (inner ++ ['>']) := first [] (inner ++ ['>'])
    have closed : weight (inner ++ ['>']) = inner.weight + weight [] := last inner []
    rw [List.cons_append, opened, closed, weight_nil]
    omega
  have shape : before ++ ('<' :: inner ++ ['>']) ++ behind = before ++ '<' :: (inner ++ '>' :: behind) := by simp
  rw [alone, shape, first, last]
  omega

end Text

theorem Placeholder.restore_tildes (text : Text) : (restore text).count '~' ≤ text.weight := by
  induction text using Text.substitute_induction table_marked with
  | nil => simp [restore, Text.substitute, Text.substituteFrom]
  | kept c rest absent ih =>
      have whole := Text.weight_append [c] rest
      have first : List.count '~' [c] ≤ Text.weight [c] := Nat.le_add_right _ _
      have split : List.count '~' (c :: restore rest) = List.count '~' [c] + (restore rest).count '~' :=
        @List.count_append Char _ '~' [c] (restore rest)
      rw [restore, Text.substitute_kept absent]
      change List.count '~' (c :: restore rest) ≤ Text.weight ([c] ++ rest)
      omega
  | replaced row behind member found ih =>
      have heavy : ∀ row ∈ table, row.2.count '~' ≤ Text.weight row.1 := by decide
      have front := heavy row member
      have whole := Text.weight_append row.1 behind
      rw [restore_placeholder member, List.count_append]
      omega

namespace Directive

theorem expandTabs_tildes (text : Text) : (expandTabs text).count '~' = text.count '~' := by
  apply Text.flatMap_count
  intro c
  by_cases tab : c = '\t'
  · rw [if_pos tab, tab]
    rfl
  · rw [if_neg tab]

theorem expandTabs_occurrences {mark : Text} (marked : mark ≠ []) (space : ' ' ∉ mark) (text : Text) :
    Text.occurrences mark (expandTabs text) ≤ Text.occurrences mark text := by
  induction text with
  | nil => exact Nat.le_refl _
  | cons c rest ih =>
      by_cases tab : c = '\t'
      · have spaces : expandTabs (c :: rest) = [] ++ ' ' :: ([] ++ ' ' :: expandTabs rest) := by
          rw [tab]
          rfl
        have part := Text.occurrences_part mark (List.suffix_cons c rest).isInfix
        rw [spaces, Text.occurrences_apart space marked, Text.occurrences_apart space marked]
        simp only [Text.occurrences]
        omega
      · have kept : expandTabs (c :: rest) = c :: expandTabs rest := by
          rw [expandTabs, List.flatMap_cons, if_neg tab]
          rfl
        by_cases here : mark <+: c :: rest
        · simp only [kept, Text.occurrences, if_pos here]
          split <;> omega
        · have absent : ¬ mark <+: c :: expandTabs rest := by
            intro found
            rw [← kept] at found
            exact here (expandTabs_leads space found)
          simp only [kept, Text.occurrences, if_neg here, if_neg absent]
          omega

theorem expandTabs_weight (text : Text) : (expandTabs text).weight ≤ text.weight := by
  have places := @expandTabs_occurrences Placeholder.tildeFence (by decide) (by decide) text
  simp only [Text.weight, expandTabs_tildes]
  omega

end Directive

theorem Highlighter.code_tildes (raw : Text) : (code raw).count '~' ≤ raw.weight := by
  have read : (Directive.parse raw).code <:+: Directive.expandTabs raw :=
    (Directive.read_part _).trans (Text.trim_inside _)
  calc (code raw).count '~'
      ≤ (Placeholder.restore (Directive.parse raw).code).count '~' := (Text.trim_inside _).sublist.count_le '~'
    _ ≤ (Directive.parse raw).code.weight := Placeholder.restore_tildes _
    _ ≤ (Directive.expandTabs raw).weight := Text.weight_part read
    _ ≤ raw.weight := Directive.expandTabs_weight raw

end CodeFence
