import CodeFence.Proofs.Text.Lacks

set_option autoImplicit false

namespace CodeFence.Text

-- The pieces that are put in satisfy `piece`.
inductive Edited (piece : Text → Prop) : Text → Text → Prop
  | done : Edited piece [] []
  | kept (c : Char) {before after : Text} : Edited piece before after → Edited piece (c :: before) (c :: after)
  | put (gone new : Text) {before after : Text} : piece new → Edited piece before after →
      Edited piece (gone ++ before) (new ++ after)

theorem edited_imp {piece wider : Text → Prop} {before after : Text} (weaker : ∀ new, piece new → wider new)
    (edited : Edited piece before after) : Edited wider before after := by
  induction edited with
  | done => exact .done
  | kept c _ ih => exact .kept c ih
  | put gone new allowed _ ih => exact .put gone new (weaker new allowed) ih

theorem edited_leads {piece : Text → Prop} {before after mark : Text} (edited : Edited piece before after)
    (lead : ∀ new, piece new → ∃ c ∈ new.head?, c ∉ mark) (found : mark <+: after) : mark <+: before := by
  induction edited generalizing mark with
  | done => exact found
  | kept c _ ih =>
      cases mark with
      | nil => exact List.nil_prefix
      | cons m mark =>
          rw [List.cons_prefix_cons] at found ⊢
          refine ⟨found.1, ih ?_ found.2⟩
          intro new allowed
          obtain ⟨first, head, outside⟩ := lead new allowed
          exact ⟨first, head, fun held => outside (List.mem_cons_of_mem m held)⟩
  | put gone new allowed _ _ =>
      obtain ⟨first, head, outside⟩ := lead new allowed
      obtain ⟨rest, rfl⟩ := List.head?_eq_some_iff.mp head
      cases mark with
      | nil => exact List.nil_prefix
      | cons m mark =>
          rw [List.cons_append, List.cons_prefix_cons] at found
          exact absurd (found.1 ▸ List.mem_cons_self) outside

theorem edited_stands {piece : Text → Prop} {before after mark : Text} (edited : Edited piece before after)
    (breaks : ∀ new, piece new → new.Breaks mark) (found : mark <:+: after) : mark <:+: before := by
  have lead (new : Text) (allowed : piece new) : ∃ c ∈ new.head?, c ∉ mark := (breaks new allowed).1
  induction edited with
  | done => exact found
  | kept c rest ih =>
      rcases List.infix_cons_iff.mp found with front | deeper
      · exact (edited_leads (.kept c rest) lead front).isInfix
      · exact (ih deeper).trans (List.suffix_cons c _).isInfix
  | put gone new allowed _ ih =>
      exact (ih (infix_behind (breaks new allowed).2 found)).trans (List.suffix_append gone _).isInfix

theorem edited_lacks {piece : Text → Prop} {before after mark : Text} (edited : Edited piece before after)
    (breaks : ∀ new, piece new → new.Breaks mark) (lacks : before.Lacks mark) : after.Lacks mark :=
  fun found => lacks (edited_stands edited breaks found)

theorem edited_empty {piece : Text → Prop} {before : Text} (written : ∀ new, piece new → new ≠ [])
    (edited : Edited piece before []) : before = [] := by
  generalize shape : ([] : Text) = after at edited
  cases edited with
  | done => rfl
  | kept c _ => cases shape
  | put gone new allowed _ => exact absurd (List.append_eq_nil_iff.mp shape.symm).1 (written new allowed)

theorem edited_last {piece : Text → Prop} {before after : Text} (written : ∀ new, piece new → new ≠ [])
    (edited : Edited piece before after) :
    ∀ c ∈ after.getLast?, c ∈ before.getLast? ∨ ∃ new, piece new ∧ c ∈ new.getLast? := by
  induction edited with
  | done => exact fun c final => Or.inl final
  | @kept d before after rest ih =>
      intro c final
      by_cases empty : after = []
      · subst empty
        rw [edited_empty written rest]
        exact Or.inl final
      · have inner : c ∈ after.getLast? := by simpa [List.getLast?_cons, List.getLast?_eq_some_getLast empty] using final
        refine (ih c inner).imp_left fun held => ?_
        rw [Option.mem_def] at held ⊢
        rw [List.getLast?_cons, held]
        rfl
  | @put gone new before after allowed rest ih =>
      intro c final
      by_cases empty : after = []
      · rw [empty, List.append_nil] at final
        exact Or.inr ⟨new, allowed, final⟩
      · rw [List.getLast?_append_of_ne_nil _ empty] at final
        refine (ih c final).imp_left fun held => ?_
        rw [Option.mem_def] at held ⊢
        rw [List.getLast?_append, held]
        rfl

theorem flatMap_edited (write : Char → Text) (text : Text) :
    Edited (fun new => ∃ c ∈ text, write c = new ∧ new ≠ [c]) text (text.flatMap write) := by
  induction text with
  | nil => exact .done
  | cons c rest ih =>
      have later : Edited (fun new => ∃ d ∈ c :: rest, write d = new ∧ new ≠ [d]) rest (rest.flatMap write) :=
        edited_imp (fun new ⟨d, held, written⟩ => ⟨d, List.mem_cons_of_mem c held, written⟩) ih
      rw [List.flatMap_cons]
      by_cases same : write c = [c]
      · rw [same]
        exact .kept c later
      · exact .put [c] (write c) ⟨c, List.mem_cons_self, rfl, same⟩ later

theorem flatMap_lacks {write : Char → Text} {text mark : Text} (lacks : text.Lacks mark)
    (breaks : ∀ c, write c = [c] ∨ (write c).Breaks mark) : Text.Lacks (text.flatMap write) mark := by
  refine edited_lacks (flatMap_edited write text) ?_ lacks
  rintro new ⟨c, -, rfl, changed⟩
  exact (breaks c).resolve_left changed

theorem flatMap_keeps {write : Char → Text} {mark : Text} (kept : ∀ c ∈ mark, write c = [c]) :
    mark.flatMap write = mark := by
  induction mark with
  | nil => rfl
  | cons m mark ih =>
      rw [List.flatMap_cons, kept m List.mem_cons_self, ih fun c held => kept c (List.mem_cons_of_mem m held)]
      rfl

theorem flatMap_stands {write : Char → Text} {text mark : Text} (kept : ∀ c ∈ mark, write c = [c])
    (found : mark <:+: text) : mark <:+: text.flatMap write := by
  simpa only [flatMap_keeps kept] using found.flatMap write

theorem flatMap_lacks_iff {write : Char → Text} {text mark : Text} (kept : ∀ c ∈ mark, write c = [c])
    (breaks : ∀ c, write c = [c] ∨ (write c).Breaks mark) :
    Text.Lacks (text.flatMap write) mark ↔ text.Lacks mark :=
  ⟨fun lacks found => lacks (flatMap_stands kept found), fun lacks => flatMap_lacks lacks breaks⟩

end CodeFence.Text
