import CodeFence.Proofs.Text.Edited
import CodeFence.Proofs.Text.Trim
import CodeFence.Text.Substitute

set_option autoImplicit false

namespace CodeFence.Text

theorem row_found {table : List Substitution} {text : Text} {row : Substitution} (found : row? table text = some row) :
    row ∈ table ∧ ∃ rest, text = row.1 ++ rest := by
  unfold row? at found
  have stands : (strip? row.1 text).isSome = true := by simpa using List.find?_some found
  refine ⟨List.mem_of_find?_eq_some found, ?_⟩
  obtain ⟨rest, stripped⟩ := Option.isSome_iff_exists.mp stands
  exact ⟨rest, strip_eq_some_iff.mp stripped⟩

theorem substitute_at {table : List Substitution} {row : Substitution} {behind : Text} (marked : row.1 ≠ [])
    (found : row? table (row.1 ++ behind) = some row) : substitute table (row.1 ++ behind) = row.2 ++ substitute table behind := by
  obtain ⟨m, mark, shape⟩ := List.exists_cons_of_ne_nil marked
  rw [shape, List.cons_append] at found ⊢
  rw [substitute_replaced found marked, shape, ← List.cons_append, List.drop_left]

-- Induction along the places that substitution comes to: a character that is kept, or a mark with what is behind it.
@[elab_as_elim]
theorem substitute_induction {table : List Substitution} (marked : ∀ row ∈ table, row.1 ≠ []) {motive : Text → Prop}
    (nil : motive []) (kept : ∀ c rest, row? table (c :: rest) = none → motive rest → motive (c :: rest))
    (replaced : ∀ row behind, row ∈ table → row? table (row.1 ++ behind) = some row → motive behind → motive (row.1 ++ behind))
    (text : Text) : motive text := by
  induction size : text.length using Nat.strong_induction_on generalizing text with
  | _ size ih =>
  cases text with
  | nil => exact nil
  | cons c rest =>
      cases found : row? table (c :: rest) with
      | none => exact kept c rest found (ih rest.length (by simp [← size]) rest rfl)
      | some row =>
          obtain ⟨member, behind, shape⟩ := row_found found
          have positive := List.length_pos_iff.mpr (marked row member)
          have shorter : behind.length < (c :: rest).length := by
            rw [shape, List.length_append]
            omega
          rw [shape] at found ⊢
          exact replaced row behind member found (ih behind.length (size ▸ shorter) behind rfl)

theorem substitute_edited (table : List Substitution) (marked : ∀ row ∈ table, row.1 ≠ []) (text : Text) :
    Edited (fun new => ∃ row ∈ table, row.1 <:+: text ∧ row.2 = new) text (substitute table text) := by
  induction text using substitute_induction marked with
  | nil => exact .done
  | kept c rest absent ih =>
      rw [substitute_kept absent]
      refine .kept c (edited_imp ?_ ih)
      rintro new ⟨row, member, inside, same⟩
      exact ⟨row, member, inside.trans (List.suffix_cons c rest).isInfix, same⟩
  | replaced row behind member found ih =>
      rw [substitute_at (marked row member) found]
      refine .put row.1 row.2 ⟨row, member, (List.prefix_append row.1 behind).isInfix, rfl⟩ (edited_imp ?_ ih)
      rintro new ⟨later, held, inside, same⟩
      exact ⟨later, held, inside.trans (List.suffix_append row.1 behind).isInfix, same⟩

theorem row_absent {table : List Substitution} {text : Text} (absent : ∀ row ∈ table, ¬ row.1 <+: text) :
    row? table text = none := by
  unfold row?
  rw [List.find?_eq_none]
  intro row member
  exact fun found => absent row member (strip_isSome_iff.mp found)

theorem row_congr {table : List Substitution} {text other : Text} (same : ∀ row ∈ table, row.1 <+: text ↔ row.1 <+: other) :
    row? table text = row? table other := by
  induction table with
  | nil => rfl
  | cons row table ih =>
      have later := ih fun other member => same other (List.mem_cons_of_mem row member)
      have here : (strip? row.1 text).isSome = (strip? row.1 other).isSome := by
        rw [Bool.eq_iff_iff, strip_isSome_iff, strip_isSome_iff]
        exact same row List.mem_cons_self
      unfold row? at later ⊢
      rw [List.find?_cons, List.find?_cons, here, later]

theorem substitute_pass {table : List Substitution} {kept : Text} (starts : ∀ row ∈ table, ∃ m ∈ row.1.head?, m ∉ kept) (behind : Text) :
    substitute table (kept ++ behind) = kept ++ substitute table behind := by
  induction kept with
  | nil => rfl
  | cons c kept ih =>
      have absent : row? table (c :: (kept ++ behind)) = none := by
        apply row_absent
        intro row member stands
        obtain ⟨m, first, outside⟩ := starts row member
        obtain ⟨mark, shape⟩ := List.head?_eq_some_iff.mp first
        rw [shape, List.cons_prefix_cons] at stands
        exact outside (stands.1 ▸ List.mem_cons_self)
      have later : ∀ row ∈ table, ∃ m ∈ row.1.head?, m ∉ kept := by
        intro row member
        obtain ⟨m, first, outside⟩ := starts row member
        exact ⟨m, first, fun held => outside (List.mem_cons_of_mem c held)⟩
      rw [List.cons_append, substitute_kept absent, ih later]
      rfl

theorem substitute_unmarked {table : List Substitution} {mark c : Char} (starts : ∀ row ∈ table, row.1.head? = some mark) (other : c ≠ mark)
    (rest : Text) : substitute table (c :: rest) = c :: substitute table rest := by
  have outside : mark ∉ [c] := by
    rw [List.mem_singleton]
    exact other.symm
  exact @substitute_pass table [c] (fun row member => ⟨mark, starts row member, outside⟩) rest

section Outside

variable {table : List Substitution} (marked : ∀ row ∈ table, row.1 ≠ [])

include marked in
theorem substitute_outside_append {kept : Text} (outside : ∀ c ∈ kept, ∀ row ∈ table, c ∉ row.1) (rest : Text) :
    substitute table (kept ++ rest) = kept ++ substitute table rest := by
  apply substitute_pass
  intro row member
  obtain ⟨m, mark, shape⟩ := List.exists_cons_of_ne_nil (marked row member)
  exact ⟨m, shape ▸ rfl, fun held => outside m held row member (shape ▸ List.mem_cons_self)⟩

include marked in
theorem substitute_outside {c : Char} (outside : ∀ row ∈ table, c ∉ row.1) (rest : Text) :
    substitute table (c :: rest) = c :: substitute table rest :=
  substitute_outside_append marked (List.forall_mem_singleton.mpr outside) rest

include marked in
theorem substitute_id {kept : Text} (outside : ∀ c ∈ kept, ∀ row ∈ table, c ∉ row.1) : substitute table kept = kept := by
  simpa [substitute, substituteFrom] using substitute_outside_append marked outside []

include marked in
theorem substitute_apart {c : Char} (outside : ∀ row ∈ table, c ∉ row.1) (before behind : Text) :
    substitute table (before ++ c :: behind) = substitute table before ++ c :: substitute table behind := by
  have same (front : Text) : row? table (front ++ c :: behind) = row? table front := by
    apply row_congr
    intro row member
    constructor
    · exact prefix_apart (outside row member)
    · exact fun stands => stands.trans (List.prefix_append front _)
  induction before using substitute_induction marked with
  | nil => exact substitute_outside marked outside behind
  | kept d rest absent ih =>
      have longer := (same (d :: rest)).trans absent
      rw [substitute_kept absent, List.cons_append, substitute_kept (List.cons_append ▸ longer), ih]
      rfl
  | replaced row rest member found ih =>
      have longer := (same (row.1 ++ rest)).trans found
      rw [List.append_assoc] at longer ⊢
      rw [substitute_at (marked row member) found, substitute_at (marked row member) longer, ih, List.append_assoc]

end Outside

theorem substitute_lacks {table : List Substitution} (breaks : ∀ row ∈ table, ∀ other ∈ table, other.2.Breaks row.1)
    {row : Substitution} (member : row ∈ table) (text : Text) : Lacks (substitute table text) row.1 := by
  have marked (row : Substitution) (held : row ∈ table) : row.1 ≠ [] := by
    obtain ⟨m, first, -⟩ := (breaks row held row held).2
    rintro empty
    simp [empty] at first
  induction text using substitute_induction marked with
  | nil => exact lacks_nil (marked row member)
  | kept c rest absent ih =>
      rw [substitute_kept absent]
      intro found
      rcases List.infix_cons_iff.mp found with front | deeper
      · have edited := Edited.kept c (substitute_edited table marked rest)
        have stood : row.1 <+: c :: rest :=
          edited_leads edited (fun new ⟨other, held, _, same⟩ => same ▸ (breaks row member other held).1) front
        rw [row?, List.find?_eq_none] at absent
        exact absent row member (strip_isSome_iff.mpr stood)
      · exact ih deeper
  | replaced other behind held found ih =>
      rw [substitute_at (marked other held) found]
      exact fun inside => ih (infix_behind (breaks row member other held).2 inside)

theorem substitute_lacking {table : List Substitution} {text : Text} (lacks : ∀ row ∈ table, text.Lacks row.1) :
    substitute table text = text := by
  induction text with
  | nil => rfl
  | cons c rest ih =>
      have absent : row? table (c :: rest) = none := row_absent fun row member found => lacks row member found.isInfix
      rw [substitute_kept absent, ih fun row member => lacks_part (lacks row member) (List.suffix_cons c rest).isInfix]

theorem substitute_filter {table : List Substitution} (marked : ∀ row ∈ table, row.1 ≠ []) {sees : Char → Bool}
    (same : ∀ row ∈ table, row.2.filter sees = row.1.filter sees) (text : Text) :
    (substitute table text).filter sees = text.filter sees := by
  induction text using substitute_induction marked with
  | nil => rfl
  | kept c rest absent ih => rw [substitute_kept absent, List.filter_cons, List.filter_cons, ih]
  | replaced row behind member found ih =>
      rw [substitute_at (marked row member) found, List.filter_append, List.filter_append, same row member, ih]

section Commutes

variable {table : List Substitution} (marked : ∀ row ∈ table, row.1 ≠ [])

include marked in
theorem substitute_strip {mark : Text} (outside : ∀ m ∈ mark, ∀ row ∈ table, m ∉ row.1)
    (lead : ∀ row ∈ table, ∃ c ∈ row.2.head?, c ∉ mark) (text : Text) :
    strip? mark (substitute table text) = (strip? mark text).map (substitute table) := by
  induction mark generalizing text with
  | nil => rfl
  | cons m mark ih =>
      cases text with
      | nil => rfl
      | cons c rest =>
          by_cases same : m = c
          · subst same
            rw [substitute_outside marked (outside m List.mem_cons_self), strip?, strip?, if_pos rfl, if_pos rfl]
            refine ih (fun d held => outside d (List.mem_cons_of_mem m held)) (fun row member => ?_) rest
            obtain ⟨d, first, apart⟩ := lead row member
            exact ⟨d, first, fun held => apart (List.mem_cons_of_mem m held)⟩
          · rw [strip?, if_neg same]
            cases found : row? table (c :: rest) with
            | none =>
                rw [substitute_kept found, strip?, if_neg same]
                rfl
            | some row =>
                have member := (row_found found).1
                obtain ⟨d, first, apart⟩ := lead row member
                obtain ⟨tail, shape⟩ := List.head?_eq_some_iff.mp first
                have other : m ≠ d := fun equal => apart (equal ▸ List.mem_cons_self)
                rw [substitute_replaced found (marked row member), shape, List.cons_append, strip?, if_neg other]
                rfl

variable (seen : ∀ c, isBlank c = true → ∀ row ∈ table, c ∉ row.1) (solid : ∀ row ∈ table, row.2 ≠ [] ∧ row.2.Solid)

include marked solid in
theorem substitute_lead {text : Text} (bare : ∀ c ∈ text.head?, isBlank c = false) :
    ∀ c ∈ (substitute table text).head?, isBlank c = false := by
  cases text with
  | nil => exact bare
  | cons c rest =>
      cases found : row? table (c :: rest) with
      | none =>
          rw [substitute_kept found]
          exact bare
      | some row =>
          have member := (row_found found).1
          obtain ⟨d, tail, shape⟩ := List.exists_cons_of_ne_nil (solid row member).1
          have lead := (solid row member).2.1
          rw [shape] at lead
          rw [substitute_replaced found (marked row member), shape]
          exact lead

include marked solid in
theorem substitute_solid {text : Text} (bare : text.Solid) : (substitute table text).Solid := by
  refine ⟨substitute_lead marked solid bare.1, fun c final => ?_⟩
  have written (new : Text) : (∃ row ∈ table, row.1 <:+: text ∧ row.2 = new) → new ≠ [] :=
    fun ⟨row, member, _, same⟩ => same ▸ (solid row member).1
  rcases edited_last written (substitute_edited table marked text) c final with same | ⟨new, ⟨row, member, -, rfl⟩, held⟩
  · exact bare.2 c same
  · exact (solid row member).2.2 c held

include marked seen solid in
theorem substitute_trim (text : Text) : trim (substitute table text) = substitute table text.trim := by
  obtain ⟨first, last, before, behind, split, bare⟩ := trim_split text
  have whole : substitute table text = first ++ substitute table text.trim ++ last := by
    conv_lhs => rw [split, List.append_assoc, substitute_outside_append marked fun c held => seen c (before c held)]
    cases last with
    | nil => simp
    | cons c last =>
        have later : substitute table last = last :=
          substitute_id marked fun d held => seen d (behind d (List.mem_cons_of_mem c held))
        rw [substitute_apart marked (seen c (behind c List.mem_cons_self)), later, List.append_assoc]
  rw [whole]
  exact trim_around before behind (substitute_solid marked solid bare)

include marked seen solid in
theorem substitute_trimStart (text : Text) : trimStart (substitute table text) = substitute table text.trimStart := by
  obtain ⟨blanks, blank, split⟩ := trimStart_split text
  conv_lhs => rw [split, substitute_outside_append marked fun c held => seen c (blank c held), trimStart_blank blank]
  exact trimStart_id (substitute_lead marked solid (trimStart_head text))

end Commutes

end CodeFence.Text
