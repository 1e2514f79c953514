import CodeFence.Fence.Span
import CodeFence.Proofs.Text.Lacks

set_option autoImplicit false

namespace CodeFence

namespace Family

def opener (family : Family) (language : Language) : Text :=
  family.token ++ language.tag

def Clear (family : Family) (text : Text) : Prop :=
  ∀ language, text.Lacks (family.opener language)

def Outside (family : Family) (c : Char) : Prop :=
  ∀ language, c ∉ family.opener language

theorem forall_language {holds : Language → Prop} : (∀ language, holds language) ↔ ∀ language ∈ Language.all, holds language :=
  ⟨fun all language _ => all language, fun all language => all language language.mem_all⟩

instance (family : Family) (text : Text) : Decidable (family.Clear text) :=
  decidable_of_iff _ forall_language.symm

instance (family : Family) (c : Char) : Decidable (family.Outside c) :=
  decidable_of_iff _ forall_language.symm

theorem token_marked (family : Family) : family.token ≠ [] := by
  cases family <;> decide

theorem opener_marked (family : Family) (language : Language) : family.opener language ≠ [] := by
  simp [opener, token_marked]

theorem outside_token {family : Family} {c : Char} (outside : family.Outside c) : c ∉ family.token :=
  fun held => outside .json (List.mem_append_left _ held)

theorem clear_nil (family : Family) : family.Clear [] :=
  fun language => Text.lacks_nil (family.opener_marked language)

theorem clear_part {family : Family} {text part : Text} (clear : family.Clear text) (inside : part <:+: text) :
    family.Clear part :=
  fun language => Text.lacks_part (clear language) inside

theorem clear_of_token {family : Family} {text : Text} (lacks : text.Lacks family.token) : family.Clear text :=
  fun language => Text.lacks_longer lacks (List.prefix_append family.token language.tag).isInfix

theorem clear_apart {family : Family} {c : Char} (outside : family.Outside c) (before behind : Text) :
    family.Clear (before ++ c :: behind) ↔ family.Clear before ∧ family.Clear behind := by
  simp only [Clear, Text.lacks_apart (outside _), forall_and]

theorem opening_apart {family : Family} {c : Char} (outside : family.Outside c) (before behind : Text) :
    family.opening? (before ++ c :: behind) =
      (family.opening? before).map fun found => (found.1, found.2 ++ c :: behind) := by
  have untagged (language : Language) : c ∉ language.tag :=
    fun held => outside language (List.mem_append_right _ held)
  unfold opening?
  rw [Text.strip_apart (outside_token outside)]
  cases Text.strip? family.token before with
  | none => rfl
  | some rest =>
      simp only [Option.map_some, Option.bind_some, Text.strip_apart (untagged _)]
      generalize Language.all = languages
      induction languages with
      | nil => rfl
      | cons language languages ih =>
          simp only [List.findSome?_cons]
          cases Text.strip? language.tag rest with
          | some _ => rfl
          | none => simpa using ih

theorem opening_eq_none_iff {family : Family} {text : Text} :
    family.opening? text = none ↔ ∀ language, ¬ family.opener language <+: text := by
  have tagged (rest : Text) : (Language.all.findSome? fun language : Language =>
      (Text.strip? language.tag rest).map fun behind => (language, behind)) = none ↔
      ∀ language : Language, ¬ language.tag <+: rest := by
    rw [forall_language]
    simp [List.findSome?_eq_none_iff, Text.strip_eq_none_iff]
  unfold opening?
  cases here : Text.strip? family.token text with
  | none =>
      rw [Text.strip_eq_none_iff] at here
      simpa [opener] using fun language found => here ((List.prefix_append _ _).trans found)
  | some rest =>
      rw [Option.bind_some, tagged, Text.strip_eq_some_iff.mp here]
      simp only [opener, List.prefix_append_right_inj]

theorem findOpening_eq_none_iff {family : Family} {text : Text} : family.findOpening? text = none ↔ family.Clear text := by
  induction text with
  | nil => simpa [findOpening?] using family.clear_nil
  | cons c rest ih =>
      have split : family.Clear (c :: rest) ↔ family.opening? (c :: rest) = none ∧ family.Clear rest := by
        rw [opening_eq_none_iff]
        simp only [Clear, Text.Lacks, List.infix_cons_iff, not_or, forall_and]
      rw [split, ← ih]
      cases here : family.opening? (c :: rest) with
      | some found => simp [findOpening?, here]
      | none => simp [findOpening?, here]

theorem findOpening_apart {family : Family} {c : Char} (outside : family.Outside c) (before behind : Text) :
    family.findOpening? (before ++ c :: behind) =
      ((family.findOpening? before).map fun found => { found with behind := found.behind ++ c :: behind }).or
        ((family.findOpening? behind).map fun found => { found with before := before ++ c :: found.before }) := by
  induction before with
  | nil =>
      have empty : family.opening? [] = none := by cases family <;> rfl
      have here := opening_apart outside [] behind
      rw [empty, List.nil_append] at here
      simp [findOpening?, here]
  | cons d before ih =>
      have here := opening_apart outside (d :: before) behind
      rw [List.cons_append] at here ⊢
      rw [findOpening?, findOpening?, here, ih]
      cases family.opening? (d :: before) with
      | some found => rfl
      | none => cases family.findOpening? before <;> cases family.findOpening? behind <;> rfl

theorem findOpening_first {family : Family} {text : Text} {found : Opening}
    (located : family.findOpening? text = some found) : family.Clear found.before := by
  induction text generalizing found with
  | nil => simp [findOpening?] at located
  | cons c rest ih =>
      cases here : family.opening? (c :: rest) with
      | some opener =>
          simp only [findOpening?, here, Option.some.injEq] at located
          rw [← located]
          exact family.clear_nil
      | none =>
          simp only [findOpening?, here, Option.map_eq_some_iff] at located
          obtain ⟨inner, deeper, rfl⟩ := located
          intro language stands
          rcases List.infix_cons_iff.mp stands with front | later
          · have extended : family.opener language <+: c :: rest := by
              refine front.trans (List.cons_prefix_cons.mpr ⟨rfl, ?_⟩)
              rw [findOpening_parts deeper]
              simp
            exact opening_eq_none_iff.mp here language extended
          · exact ih deeper language later

end Family

theorem Span.raw_opened (family : Family) (span : Span) :
    span.raw family = family.opener span.language ++ span.body ++ family.token := by
  rw [Span.raw, Family.opener]

end CodeFence
