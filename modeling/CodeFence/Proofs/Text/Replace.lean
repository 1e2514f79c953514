import CodeFence.Proofs.Text.Substitute

set_option autoImplicit false

namespace CodeFence.Text

theorem cut_shorter {mark text before behind : Text} (marked : mark ≠ []) (found : cut? mark text = some (before, behind)) :
    behind.length < text.length := by
  have positive := List.length_pos_iff.mpr marked
  rw [cut_parts found, List.length_append, List.length_append]
  omega

def replace (text mark new : Text) : Text :=
  if marked : mark = [] then text
  else
    match found : cut? mark text with
    | none => text
    | some (before, behind) =>
        have : behind.length < text.length := cut_shorter marked found
        before ++ new ++ replace behind mark new
termination_by text.length

theorem substitute_cut {mark text before behind : Text} (marked : mark ≠ []) (new : Text)
    (found : cut? mark text = some (before, behind)) :
    substitute [(mark, new)] text = before ++ new ++ substitute [(mark, new)] behind := by
  induction text generalizing before with
  | nil => simp [cut?, marked] at found
  | cons c rest ih =>
      cases here : strip? mark (c :: rest) with
      | some after =>
          simp only [cut?, here, Option.some.injEq, Prod.mk.injEq] at found
          obtain ⟨rfl, rfl⟩ := found
          have row : row? [(mark, new)] (c :: rest) = some (mark, new) := by simp [row?, here]
          rw [substitute_replaced row marked, strip_eq_some_iff.mp here, List.drop_left]
          rfl
      | none =>
          simp only [cut?, here, Option.map_eq_some_iff, Prod.mk.injEq] at found
          obtain ⟨⟨first, last⟩, inner, rfl, rfl⟩ := found
          have absent : row? [(mark, new)] (c :: rest) = none := by simp [row?, here]
          rw [substitute_kept absent, ih inner]
          rfl

theorem substitute_single {mark : Text} (marked : mark ≠ []) (text new : Text) :
    substitute [(mark, new)] text = text.replace mark new := by
  fun_induction replace text mark new with
  | case1 text empty => exact absurd empty marked
  | case2 text _ absent =>
      apply substitute_lacking
      intro row member
      rw [List.mem_singleton.mp member]
      exact cut_eq_none_iff.mp absent
  | case3 text _ before behind found _ ih => rw [substitute_cut marked new found, ih]

theorem substitute_char (c : Char) (new text : Text) :
    substitute [([c], new)] text = text.flatMap fun d => if d = c then new else [d] := by
  have marked : ∀ row ∈ [([c], new)], row.1 ≠ [] := List.forall_mem_singleton.mpr (List.cons_ne_nil c [])
  induction text using substitute_induction marked with
  | nil => rfl
  | kept d rest absent ih =>
      have other : d ≠ c := by
        rintro rfl
        simp [row?, strip?] at absent
      rw [substitute_kept absent, List.flatMap_cons, if_neg other, ih]
      rfl
  | replaced row behind member found ih =>
      obtain rfl := List.mem_singleton.mp member
      rw [substitute_at (List.cons_ne_nil c []) found, List.singleton_append, List.flatMap_cons, if_pos rfl, ih]

-- No mark begins another one or can begin inside it, and nothing that is written has a character of a mark.
structure Separate (table : List Substitution) : Prop where
  marked : ∀ row ∈ table, row.1 ≠ []
  unique : ∀ row ∈ table, ∀ other ∈ table, row.1 <+: other.1 → row = other
  starts : ∀ row ∈ table, ∀ other ∈ table, row ≠ other → ∃ m ∈ row.1.head?, m ∉ other.1.tail
  written : ∀ row ∈ table, row.2 ≠ []
  foreign : ∀ row ∈ table, ∀ other ∈ table, ∀ c ∈ row.2, c ∉ other.1

variable {table rows : List Substitution}

theorem separate_subset (separate : Separate table) (subset : rows ⊆ table) : Separate rows where
  marked := fun row member => separate.marked row (subset member)
  unique := fun row member other held => separate.unique row (subset member) other (subset held)
  starts := fun row member other held => separate.starts row (subset member) other (subset held)
  written := fun row member => separate.written row (subset member)
  foreign := fun row member other held => separate.foreign row (subset member) other (subset held)

theorem separate_breaks (separate : Separate table) : ∀ row ∈ table, ∀ other ∈ table, other.2.Breaks row.1 := by
  intro row member other held
  obtain ⟨c, new, written⟩ := List.exists_cons_of_ne_nil (separate.written other held)
  obtain ⟨m, mark, shape⟩ := List.exists_cons_of_ne_nil (separate.marked row member)
  have apart := separate.foreign other held row member
  refine ⟨⟨c, written ▸ rfl, apart c (written ▸ List.mem_cons_self)⟩, m, shape ▸ rfl, fun inside => ?_⟩
  exact apart m inside (shape ▸ List.mem_cons_self)

theorem substitute_gone (separate : Separate table) {row : Substitution} (member : row ∈ table) (text : Text) :
    Lacks (substitute table text) row.1 :=
  substitute_lacks (separate_breaks separate) member text

theorem row_unique (separate : Separate table) {row : Substitution} (member : row ∈ table) {text : Text} (stands : row.1 <+: text) :
    row? table text = some row := by
  cases found : row? table text with
  | none =>
      rw [row?, List.find?_eq_none] at found
      exact absurd (strip_isSome_iff.mpr stands) (found row member)
  | some other =>
      obtain ⟨held, rest, shape⟩ := row_found found
      have front : other.1 <+: text := ⟨rest, shape.symm⟩
      rcases List.prefix_or_prefix_of_prefix stands front with shorter | longer
      · rw [separate.unique row member other held shorter]
      · rw [separate.unique other held row member longer]

theorem substitute_mark (separate : Separate table) {row : Substitution} (member : row ∈ table) (behind : Text) :
    substitute table (row.1 ++ behind) = row.2 ++ substitute table behind :=
  substitute_at (separate.marked row member) (row_unique separate member (List.prefix_append row.1 behind))

theorem substitute_other (separate : Separate table) {row other : Substitution} (member : row ∈ table) (held : other ∈ table)
    (apart : row ≠ other) (behind : Text) : substitute [row] (other.1 ++ behind) = other.1 ++ substitute [row] behind := by
  have absent : row? [row] (other.1 ++ behind) = none := by
    apply row_absent
    intro third same stands
    rw [List.mem_singleton.mp same] at stands
    have first := row_unique separate member stands
    have second := row_unique separate held (List.prefix_append other.1 behind)
    exact apart (Option.some.inj (first.symm.trans second))
  obtain ⟨c, mark, shape⟩ := List.exists_cons_of_ne_nil (separate.marked other held)
  have inside := separate.starts row member other held apart
  rw [shape, List.tail_cons] at inside
  rw [shape, List.cons_append] at absent ⊢
  rw [substitute_kept absent, substitute_pass fun third same => List.mem_singleton.mp same ▸ inside]
  rfl

theorem substitute_leads (separate : Separate table) {row other : Substitution} (member : row ∈ table) (held : other ∈ table)
    {c : Char} {rest : Text} (stands : other.1 <+: c :: substitute [row] rest) : other.1 <+: c :: rest := by
  have alone : ∀ third ∈ [row], third.1 ≠ [] := List.forall_mem_singleton.mpr (separate.marked row member)
  refine edited_leads (.kept c (substitute_edited [row] alone rest)) ?_ stands
  intro new written
  obtain ⟨third, same, -, rfl⟩ := written
  obtain rfl := List.mem_singleton.mp same
  obtain ⟨d, tail, shape⟩ := List.exists_cons_of_ne_nil (separate.written third member)
  rw [shape]
  exact ⟨d, rfl, separate.foreign third member other held d (shape ▸ List.mem_cons_self)⟩

theorem substitute_cons {row : Substitution} (separate : Separate (row :: rows)) (text : Text) :
    substitute (row :: rows) text = substitute rows (substitute [row] text) := by
  have first : row ∈ row :: rows := List.mem_cons_self
  have others : Separate rows := separate_subset separate (List.subset_cons_self row rows)
  have alone : Separate [row] := separate_subset separate (List.cons_subset.mpr ⟨first, List.nil_subset _⟩)
  induction text using substitute_induction separate.marked with
  | nil => rfl
  | kept c rest absent ih =>
      have unread : ∀ other ∈ row :: rows, ¬ other.1 <+: c :: rest := by
        intro other member stands
        rw [row_unique separate member stands] at absent
        cases absent
      have before : row? [row] (c :: rest) = none :=
        row_absent (List.forall_mem_singleton.mpr (unread row first))
      have after : row? rows (c :: substitute [row] rest) = none := by
        apply row_absent
        intro other member stands
        have inside := List.mem_cons_of_mem row member
        exact unread other inside (substitute_leads separate first inside stands)
      rw [substitute_kept absent, substitute_kept before, substitute_kept after, ih]
  | replaced other behind member found ih =>
      rw [substitute_mark separate member, ih]
      by_cases same : row = other
      · subst same
        have outside : ∀ d ∈ row.2, ∀ third ∈ rows, d ∉ third.1 := by
          intro d held third found
          exact separate.foreign row first third (List.mem_cons_of_mem row found) d held
        rw [substitute_mark alone List.mem_cons_self, substitute_outside_append others.marked outside]
      · have held : other ∈ rows := (List.mem_cons.mp member).resolve_left fun equal => same equal.symm
        rw [substitute_other separate first member same, substitute_mark others held]

theorem substitute_foldl (separate : Separate table) (text : Text) :
    substitute table text = table.foldl (fun text row => text.replace row.1 row.2) text := by
  induction table generalizing text with
  | nil => exact substitute_lacking fun row member => absurd member List.not_mem_nil
  | cons row rows ih =>
      have marked := separate.marked row List.mem_cons_self
      have others : Separate rows := separate_subset separate (List.subset_cons_self row rows)
      rw [substitute_cons separate, ih others, List.foldl_cons, ← substitute_single marked]

theorem row_perm (separate : Separate table) (order : rows.Perm table) (text : Text) : row? rows text = row? table text := by
  cases found : row? table text with
  | none =>
      apply row_absent
      intro row member stands
      rw [row_unique separate (order.subset member) stands] at found
      cases found
  | some row =>
      obtain ⟨member, behind, shape⟩ := row_found found
      have stands : row.1 <+: text := ⟨behind, shape.symm⟩
      exact row_unique (separate_subset separate order.subset) (order.symm.subset member) stands

theorem substitute_perm (separate : Separate table) (order : rows.Perm table) (text : Text) :
    substitute rows text = substitute table text := by
  have same (skip : Nat) : substituteFrom rows skip text = substituteFrom table skip text := by
    induction text generalizing skip with
    | nil => cases skip <;> rfl
    | cons c rest ih =>
        cases skip with
        | zero => simp only [substituteFrom, row_perm separate order, ih]
        | succ skip => exact ih skip
  exact same 0

-- One scan with the table does what replacing mark after mark does, in whatever order.
theorem substitute_replaces (separate : Separate table) (order : rows.Perm table) (text : Text) :
    substitute table text = rows.foldl (fun text row => text.replace row.1 row.2) text := by
  rw [← substitute_perm separate order, substitute_foldl (separate_subset separate order.subset)]

theorem substitute_comm {row : Substitution} (separate : Separate (row :: rows)) (text : Text) :
    substitute rows (substitute [row] text) = substitute [row] (substitute rows text) := by
  have others : Separate rows := separate_subset separate (List.subset_cons_self row rows)
  have last := substitute_replaces separate (List.perm_append_singleton row rows) text
  rw [List.foldl_append, ← substitute_foldl others, List.foldl_cons, List.foldl_nil,
    ← substitute_single (separate.marked row List.mem_cons_self)] at last
  rw [← substitute_cons separate, last]

end CodeFence.Text
