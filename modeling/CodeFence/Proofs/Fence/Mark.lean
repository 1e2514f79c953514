import CodeFence.Proofs.Fence.Opener
import CodeFence.Proofs.Text.Edited

set_option autoImplicit false

namespace CodeFence

def isFence (c : Char) : Bool :=
  c == '\x60' || c == '~'

namespace Text

def FenceMark (mark : Text) : Prop :=
  (∃ m ∈ mark.head?, isFence m = true) ∧ ∀ c ∈ mark, isFence c = true ∨ c.isLower = true

def Quiet (text : Text) : Prop :=
  ∀ c ∈ text, isFence c = false

def Divider (piece : Text) : Prop :=
  (∃ c ∈ piece.head?, c.isLower = false) ∧ piece.Quiet

instance (mark : Text) : Decidable mark.FenceMark :=
  inferInstanceAs (Decidable ((∃ m ∈ mark.head?, isFence m = true) ∧ ∀ c ∈ mark, isFence c = true ∨ c.isLower = true))

instance (text : Text) : Decidable text.Quiet :=
  inferInstanceAs (Decidable (∀ c ∈ text, isFence c = false))

instance (piece : Text) : Decidable piece.Divider :=
  inferInstanceAs (Decidable ((∃ c ∈ piece.head?, c.isLower = false) ∧ piece.Quiet))

theorem fence_mark_nonempty {mark : Text} (fence : mark.FenceMark) : mark ≠ [] := by
  rintro rfl
  obtain ⟨⟨m, first, -⟩, -⟩ := fence
  cases first

theorem quiet_append {a b : Text} : Quiet (a ++ b) ↔ a.Quiet ∧ b.Quiet :=
  List.forall_mem_append

theorem quiet_lacks {text mark : Text} (fence : mark.FenceMark) (quiet : text.Quiet) : text.Lacks mark := by
  obtain ⟨⟨m, first, fenced⟩, -⟩ := fence
  refine lacks_absent (List.mem_of_mem_head? first) fun held => ?_
  rw [quiet m held] at fenced
  cases fenced

theorem divider_append {piece rest : Text} (divider : piece.Divider) (quiet : rest.Quiet) : Divider (piece ++ rest) := by
  obtain ⟨⟨c, first, wide⟩, silent⟩ := divider
  refine ⟨⟨c, ?_, wide⟩, quiet_append.mpr ⟨silent, quiet⟩⟩
  rw [Option.mem_def] at first
  simp [first]

theorem divider_breaks {piece mark : Text} (fence : mark.FenceMark) (divider : piece.Divider) : piece.Breaks mark := by
  obtain ⟨⟨m, head, fenced⟩, chars⟩ := fence
  obtain ⟨⟨c, first, wide⟩, quiet⟩ := divider
  refine ⟨⟨c, first, fun held => ?_⟩, m, head, fun held => ?_⟩
  · have silent := quiet c (List.mem_of_mem_head? first)
    rcases chars c held with loud | small
    · rw [silent] at loud
      cases loud
    · rw [wide] at small
      cases small
  · rw [quiet m held] at fenced
    cases fenced

end Text

namespace Family

theorem token_fence_mark (family : Family) : family.token.FenceMark := by
  cases family <;> decide

theorem opener_fence_mark (family : Family) (language : Language) : (family.opener language).FenceMark := by
  cases family <;> cases language <;> decide

-- What follows a token in the text is no character of an opener.
def Sharp (family : Family) (text : Text) : Prop :=
  ∀ c, ¬ family.Outside c → text.Lacks (family.token ++ [c])

variable {family : Family}

theorem sharp_mark {c : Char} (inside : ¬ family.Outside c) : Text.FenceMark (family.token ++ [c]) := by
  obtain ⟨language, held⟩ := not_forall_not.mp inside
  obtain ⟨⟨m, first, fenced⟩, chars⟩ := family.token_fence_mark
  refine ⟨⟨m, ?_, fenced⟩, fun d found => ?_⟩
  · rwa [List.head?_append_of_ne_nil _ family.token_marked]
  · rcases List.mem_append.mp found with token | last
    · exact chars d token
    · exact List.mem_singleton.mp last ▸ (family.opener_fence_mark language).2 c held

theorem sharp_of_token {text : Text} (lacks : text.Lacks family.token) : family.Sharp text :=
  fun c _ => Text.lacks_longer lacks (List.prefix_append family.token [c]).isInfix

theorem sharp_part {text part : Text} (sharp : family.Sharp text) (inside : part <:+: text) : family.Sharp part :=
  fun c held => Text.lacks_part (sharp c held) inside

theorem sharp_apart {c : Char} (outside : family.Outside c) {before behind : Text} (first : family.Sharp before)
    (second : family.Sharp behind) : family.Sharp (before ++ c :: behind) := by
  intro d held
  refine (Text.lacks_apart ?_).mpr ⟨first d held, second d held⟩
  rw [List.mem_append, List.mem_singleton, not_or]
  exact ⟨outside_token outside, fun same => held (same ▸ outside)⟩

theorem sharp_clear {text : Text} (sharp : family.Sharp text) : family.Clear text := by
  intro language
  have tagged : ∃ c rest, language.tag = c :: rest := by cases language <;> exact ⟨_, _, rfl⟩
  obtain ⟨c, rest, shape⟩ := tagged
  have held : c ∈ family.opener language := by simp [opener, shape]
  refine Text.lacks_longer (sharp c fun outside => outside language held) ⟨[], rest, ?_⟩
  simp [opener, shape]

theorem clear_behind {before front back : Text} {c : Char} (clear : family.Clear before)
    (sharp : family.Sharp (front ++ family.token ++ back)) (outside : family.Outside c) :
    family.Clear (before ++ back ++ [c]) := by
  rw [clear_apart outside]
  refine ⟨?_, family.clear_nil⟩
  cases back with
  | nil => rwa [List.append_nil]
  | cons d back =>
      have follows : family.Outside d := by
        by_contra inside
        exact sharp d inside ⟨front, back, by simp⟩
      have inside : back <:+: front ++ family.token ++ d :: back := ((List.suffix_cons d back).trans (List.suffix_append _ _)).isInfix
      exact (clear_apart follows before back).mpr ⟨clear, sharp_clear (sharp_part sharp inside)⟩

theorem cut_sharp {before sharp behind inner last : Text} {c : Char} (clear : family.Clear before) (quiet : family.Sharp sharp)
    (outside : family.Outside c) (cut : Text.cut? family.token (sharp ++ c :: behind) = some (inner, last)) :
    ∃ done rest, before ++ last = done ++ rest ∧ family.Clear done ∧ rest <:+ behind := by
  rw [Text.cut_apart (outside_token outside) family.token_marked] at cut
  cases first : Text.cut? family.token sharp with
  | some parts =>
      obtain ⟨head, tail⟩ := parts
      rw [first] at cut
      obtain ⟨rfl, rfl⟩ := Prod.mk.inj (Option.some.inj cut)
      exact ⟨_, behind, by simp, clear_behind clear (Text.cut_parts first ▸ quiet) outside, List.suffix_rfl⟩
  | none =>
      rw [first, Option.map_none, Option.none_or, Option.map_eq_some_iff] at cut
      obtain ⟨⟨head, tail⟩, second, same⟩ := cut
      obtain ⟨-, rfl⟩ := Prod.mk.inj same
      exact ⟨before, tail, rfl, clear, Text.cut_parts second ▸ List.suffix_append _ tail⟩

end Family
end CodeFence
