import CodeFence.Text.Basic
import Mathlib.Data.List.Infix

set_option autoImplicit false

namespace CodeFence.Text

section Members

-- What is said of the characters of a text is decided along the text, not for every character there is.
variable (p : Char → Prop) [DecidablePred p]

instance (priority := 1100) (text : Text) : Decidable (∀ c ∈ text, p c) :=
  List.decidableBAll p text

instance (priority := 1100) (text : Text) : Decidable (∃ c ∈ text, p c) :=
  List.decidableBEx p text

instance (priority := 1100) (first : Option Char) : Decidable (∀ c ∈ first, p c) :=
  Option.decidableForallMem first

instance (priority := 1100) (first : Option Char) : Decidable (∃ c ∈ first, p c) :=
  Option.decidableExistsMem first

end Members

def Lacks (text mark : Text) : Prop :=
  ¬ mark <:+: text

instance (text mark : Text) : Decidable (text.Lacks mark) :=
  inferInstanceAs (Decidable (¬ mark <:+: text))

theorem lacks_part {text part mark : Text} (whole : text.Lacks mark) (inside : part <:+: text) : part.Lacks mark :=
  fun found => whole (found.trans inside)

theorem lacks_absent {text mark : Text} {c : Char} (held : c ∈ mark) (absent : c ∉ text) : text.Lacks mark :=
  fun found => absent (found.subset held)

theorem lacks_single {c : Char} {text : Text} : text.Lacks [c] ↔ c ∉ text := by
  rw [Lacks, List.singleton_infix_iff]

theorem lacks_longer {text mark longer : Text} (lacks : text.Lacks mark) (inside : mark <:+: longer) :
    text.Lacks longer :=
  fun found => lacks (inside.trans found)

theorem lacks_nil {mark : Text} (marked : mark ≠ []) : Text.Lacks [] mark := by
  simpa [Lacks] using marked

theorem prefix_apart {mark before behind : Text} {c : Char} (outside : c ∉ mark)
    (found : mark <+: before ++ c :: behind) : mark <+: before := by
  induction before generalizing mark with
  | nil =>
      cases mark with
      | nil => exact List.nil_prefix
      | cons m mark => simp_all [List.cons_prefix_cons]
  | cons d before ih =>
      cases mark with
      | nil => exact List.nil_prefix
      | cons m mark =>
          rw [List.cons_append, List.cons_prefix_cons] at found
          rw [List.cons_prefix_cons]
          exact ⟨found.1, ih (fun held => outside (List.mem_cons_of_mem m held)) found.2⟩

theorem infix_apart {mark before behind : Text} {c : Char} (outside : c ∉ mark)
    (found : mark <:+: before ++ c :: behind) : mark <:+: before ∨ mark <:+: behind := by
  induction before with
  | nil =>
      rcases List.infix_cons_iff.mp found with front | deeper
      · have shorter : mark <+: [] := prefix_apart outside front
        exact Or.inl shorter.isInfix
      · exact Or.inr deeper
  | cons d before ih =>
      rcases List.infix_cons_iff.mp found with front | deeper
      · have shorter : mark <+: d :: before := prefix_apart outside front
        exact Or.inl shorter.isInfix
      · exact (ih deeper).imp (fun inner => inner.trans (List.suffix_cons d before).isInfix) id

theorem lacks_apart {mark before behind : Text} {c : Char} (outside : c ∉ mark) :
    Text.Lacks (before ++ c :: behind) mark ↔ before.Lacks mark ∧ behind.Lacks mark := by
  constructor
  · intro whole
    exact ⟨lacks_part whole (List.prefix_append before _).isInfix,
      lacks_part whole ((List.suffix_cons c behind).trans (List.suffix_append before _)).isInfix⟩
  · rintro ⟨first, second⟩ found
    exact (infix_apart outside found).elim first second

theorem strip_eq_none_iff {mark text : Text} : strip? mark text = none ↔ ¬ mark <+: text := by
  rw [Option.eq_none_iff_forall_ne_some]
  constructor
  · rintro none ⟨rest, rfl⟩
    exact none rest (strip_append mark rest)
  · intro absent rest found
    exact absent ⟨rest, (strip_eq_some_iff.mp found).symm⟩

theorem strip_isSome_iff {mark text : Text} : (strip? mark text).isSome = true ↔ mark <+: text := by
  rw [Option.isSome_iff_ne_none, ne_eq, strip_eq_none_iff, not_not]

theorem cut_eq_none_iff {mark text : Text} : cut? mark text = none ↔ text.Lacks mark := by
  induction text with
  | nil => by_cases empty : mark = [] <;> simp [cut?, Lacks, empty]
  | cons c rest ih =>
      rw [Lacks, List.infix_cons_iff, not_or]
      cases here : strip? mark (c :: rest) with
      | some behind =>
          have stands : mark <+: c :: rest := ⟨behind, (strip_eq_some_iff.mp here).symm⟩
          simp [cut?, here, stands]
      | none => simpa [cut?, here, strip_eq_none_iff.mp here, Lacks] using ih

theorem cut_here {mark : Text} (marked : mark ≠ []) (behind : Text) : cut? mark (mark ++ behind) = some ([], behind) := by
  obtain ⟨m, rest, rfl⟩ := List.exists_cons_of_ne_nil marked
  have here := strip_append (m :: rest) behind
  rw [List.cons_append] at here ⊢
  simp only [cut?, here]

theorem strip_apart {mark : Text} {c : Char} (outside : c ∉ mark) (before behind : Text) :
    strip? mark (before ++ c :: behind) = (strip? mark before).map (· ++ c :: behind) := by
  cases here : strip? mark before with
  | some rest =>
      rw [strip_eq_some_iff.mp here, List.append_assoc, strip_append]
      rfl
  | none =>
      rw [strip_eq_none_iff] at here
      exact strip_eq_none_iff.mpr fun found => here (prefix_apart outside found)

theorem cut_apart {mark : Text} {c : Char} (outside : c ∉ mark) (marked : mark ≠ []) (before behind : Text) :
    cut? mark (before ++ c :: behind) =
      ((cut? mark before).map fun parts => (parts.1, parts.2 ++ c :: behind)).or
        ((cut? mark behind).map fun parts => (before ++ c :: parts.1, parts.2)) := by
  induction before with
  | nil =>
      have empty : strip? mark [] = none := by cases mark with
        | nil => exact absurd rfl marked
        | cons m mark => rfl
      have here := strip_apart outside [] behind
      rw [empty, List.nil_append] at here
      simp [cut?, here, marked]
  | cons d before ih =>
      have here := strip_apart outside (d :: before) behind
      rw [List.cons_append] at here ⊢
      rw [cut?, cut?, here, ih]
      cases strip? mark (d :: before) with
      | some rest => rfl
      | none => cases cut? mark before <;> cases cut? mark behind <;> rfl

theorem cut_first {mark text before behind : Text} (marked : mark ≠ []) (found : cut? mark text = some (before, behind)) :
    before.Lacks mark := by
  induction text generalizing before with
  | nil => simp [cut?, marked] at found
  | cons c rest ih =>
      cases here : strip? mark (c :: rest) with
      | some after =>
          simp only [cut?, here, Option.some.injEq, Prod.mk.injEq] at found
          rw [← found.1]
          exact lacks_nil marked
      | none =>
          simp only [cut?, here, Option.map_eq_some_iff, Prod.mk.injEq] at found
          obtain ⟨⟨first, last⟩, inner, rfl, rfl⟩ := found
          intro stands
          rcases List.infix_cons_iff.mp stands with front | deeper
          · have extended : mark <+: c :: rest := by
              refine front.trans (List.cons_prefix_cons.mpr ⟨rfl, ?_⟩)
              rw [cut_parts inner, List.append_assoc]
              exact List.prefix_append first _
            exact strip_eq_none_iff.mp here extended
          · exact ih inner deeper

theorem cut_short {mark tail text before behind : Text} (more : tail ≠ []) (found : cut? mark text = some (before, behind)) :
    Lacks (before ++ mark) (mark ++ tail) := by
  have longer : mark.length < (mark ++ tail).length := by simp [List.length_pos_iff.mpr more]
  induction text generalizing before with
  | nil =>
      by_cases empty : mark = []
      · simp only [cut?, if_pos empty, Option.some.injEq, Prod.mk.injEq] at found
        rw [← found.1]
        exact fun stands => absurd stands.length_le (Nat.not_le_of_lt longer)
      · simp [cut?, empty] at found
  | cons c rest ih =>
      cases here : strip? mark (c :: rest) with
      | some after =>
          simp only [cut?, here, Option.some.injEq, Prod.mk.injEq] at found
          rw [← found.1]
          exact fun stands => absurd stands.length_le (Nat.not_le_of_lt longer)
      | none =>
          simp only [cut?, here, Option.map_eq_some_iff, Prod.mk.injEq] at found
          obtain ⟨⟨first, last⟩, inner, rfl, rfl⟩ := found
          intro stands
          rcases List.infix_cons_iff.mp stands with front | deeper
          · have extended : mark <+: c :: rest := by
              rw [cut_parts inner]
              exact ((List.prefix_append mark tail).trans front).trans (List.prefix_append (c :: (first ++ mark)) last)
            exact strip_eq_none_iff.mp here extended
          · exact ih inner deeper

-- No place of the mark begins in the piece or runs into it.
def Breaks (piece mark : Text) : Prop :=
  (∃ c ∈ piece.head?, c ∉ mark) ∧ ∃ m ∈ mark.head?, m ∉ piece

instance (piece mark : Text) : Decidable (piece.Breaks mark) :=
  inferInstanceAs (Decidable ((∃ c ∈ piece.head?, c ∉ mark) ∧ ∃ m ∈ mark.head?, m ∉ piece))

theorem breaks_lead {piece mark : Text} (breaks : piece.Breaks mark) :
    ∃ c rest, piece = c :: rest ∧ c ∉ mark := by
  obtain ⟨⟨c, first, outside⟩, -⟩ := breaks
  obtain ⟨rest, rfl⟩ := List.head?_eq_some_iff.mp first
  exact ⟨c, rest, rfl, outside⟩

theorem infix_behind {piece mark behind : Text} (absent : ∃ m ∈ mark.head?, m ∉ piece)
    (found : mark <:+: piece ++ behind) : mark <:+: behind := by
  obtain ⟨m, first, outside⟩ := absent
  obtain ⟨tail, rfl⟩ := List.head?_eq_some_iff.mp first
  induction piece with
  | nil => exact found
  | cons c piece ih =>
      rcases List.infix_cons_iff.mp found with front | deeper
      · have same : m = c := (List.cons_prefix_cons.mp front).1
        exact absurd (same ▸ List.mem_cons_self) outside
      · exact ih (fun held => outside (List.mem_cons_of_mem c held)) deeper

theorem lacks_broken {piece mark : Text} (breaks : piece.Breaks mark) (before behind : Text) :
    Text.Lacks (before ++ (piece ++ behind)) mark ↔ before.Lacks mark ∧ behind.Lacks mark := by
  obtain ⟨c, rest, rfl, outside⟩ := breaks_lead breaks
  obtain ⟨-, m, first, absent⟩ := breaks
  rw [List.cons_append, lacks_apart outside, and_congr_right_iff]
  intro _
  constructor
  · exact fun whole => lacks_part whole (List.suffix_append rest behind).isInfix
  · exact fun lacks found =>
      lacks (infix_behind ⟨m, first, fun held => absent (List.mem_cons_of_mem c held)⟩ found)

theorem lacks_broken_front {piece mark : Text} (breaks : piece.Breaks mark) (behind : Text) :
    Text.Lacks (piece ++ behind) mark ↔ behind.Lacks mark := by
  have marked : mark ≠ [] := by
    obtain ⟨-, m, first, -⟩ := breaks
    rintro rfl
    simp at first
  simpa [lacks_nil marked] using lacks_broken breaks [] behind

theorem lacks_broken_end {piece mark : Text} (breaks : piece.Breaks mark) (before : Text) :
    Text.Lacks (before ++ piece) mark ↔ before.Lacks mark := by
  have marked : mark ≠ [] := by
    obtain ⟨-, m, first, -⟩ := breaks
    rintro rfl
    simp at first
  simpa [lacks_nil marked] using lacks_broken breaks before []

theorem lacks_framed {front middle last mark : Text} (first : front.Breaks mark) (second : middle.Breaks mark)
    (third : last.Breaks mark) (a b : Text) :
    Text.Lacks (front ++ a ++ middle ++ b ++ last) mark ↔ a.Lacks mark ∧ b.Lacks mark := by
  rw [lacks_broken_end third, List.append_assoc, lacks_broken second, lacks_broken_front first]

theorem intercalate_lacks {separator mark : Text} (breaks : separator.Breaks mark) {parts : List Text}
    (lacks : ∀ part ∈ parts, part.Lacks mark) : Text.Lacks (separator.intercalate parts) mark := by
  induction parts with
  | nil =>
      obtain ⟨-, m, first, -⟩ := breaks
      exact lacks_nil (List.ne_nil_of_mem (List.mem_of_mem_head? first))
  | cons part parts ih =>
      obtain ⟨here, later⟩ := List.forall_mem_cons.mp lacks
      cases parts with
      | nil => simpa using here
      | cons second parts =>
          rw [List.intercalate_cons_cons, List.append_assoc, lacks_broken breaks]
          exact ⟨here, ih later⟩

end CodeFence.Text
