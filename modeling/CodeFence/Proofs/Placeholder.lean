import CodeFence.Placeholder
import CodeFence.Proofs.Text.Replace

set_option autoImplicit false

namespace CodeFence.Placeholder

open Text (Lacks Breaks)

theorem table_separate : Text.Separate table where
  marked := by decide
  unique := by decide
  starts := by decide
  written := by decide
  foreign := by decide

theorem fences_separate : Text.Separate (table.map Prod.swap) where
  marked := by decide
  unique := by decide
  starts := by decide
  written := by decide
  foreign := by decide

theorem table_once : ∀ row ∈ table, ∀ other ∈ table, ∃ m ∈ row.1.head?, m ∉ other.1.tail := by decide

theorem table_marked : ∀ row ∈ table, row.1 ≠ [] :=
  table_separate.marked

theorem restore_placeholder {row : Substitution} (member : row ∈ table) (behind : Text) :
    restore (row.1 ++ behind) = row.2 ++ restore behind :=
  Text.substitute_mark table_separate member behind

theorem restore_fence {row : Substitution} (member : row ∈ table) (behind : Text) :
    restore (row.2 ++ behind) = row.2 ++ restore behind :=
  Text.substitute_outside_append table_marked (fun c held other stood => table_separate.foreign row member other stood c held) behind

-- Texts with one first character are restored alike when they begin with the same placeholder, or with none, and what
-- is behind that character is restored alike.
theorem restore_cons {c : Char} {rest other : Text} (front : ∀ row ∈ table, row.1 <+: c :: rest ↔ row.1 <+: c :: other)
    (alike : restore rest = restore other) : restore (c :: rest) = restore (c :: other) := by
  have same : Text.row? table (c :: rest) = Text.row? table (c :: other) := Text.row_congr front
  cases found : Text.row? table (c :: other) with
  | none =>
      rw [restore, restore, Text.substitute_kept (same.trans found), Text.substitute_kept found]
      exact congrArg (List.cons c) alike
  | some row =>
      obtain ⟨member, first, shape⟩ := Text.row_found (same.trans found)
      obtain ⟨-, second, split⟩ := Text.row_found found
      obtain ⟨m, mark, lead⟩ := List.exists_cons_of_ne_nil (table_marked row member)
      -- No placeholder begins inside another one.
      have passed (behind : Text) : restore (mark ++ behind) = mark ++ restore behind := by
        apply Text.substitute_pass
        intro inner stood
        have once := table_once inner stood row member
        rwa [lead] at once
      rw [lead, List.cons_append] at shape split
      obtain ⟨rfl, rfl⟩ := List.cons_eq_cons.mp shape
      obtain ⟨-, rfl⟩ := List.cons_eq_cons.mp split
      rw [passed, passed] at alike
      rw [← List.cons_append, ← List.cons_append, ← lead, restore_placeholder member, restore_placeholder member,
        List.append_cancel_left alike]

theorem restore_plain {text : Text} (plain : ∀ row ∈ table, text.Lacks row.1) : restore text = text :=
  Text.substitute_lacking plain

theorem restore_gone {row : Substitution} (member : row ∈ table) (text : Text) : (restore text).Lacks row.1 :=
  Text.substitute_gone table_separate member text

-- Looks for placeholders only where an ampersand stands, and goes on behind the placeholder or behind the ampersand.
def scan (text : Text) : Text :=
  match _found : Text.cut? ['&'] text with
  | none => text
  | some (before, behind) =>
      match Text.row? table ('&' :: behind) with
      | none => before ++ '&' :: scan behind
      | some row => before ++ row.2 ++ scan (behind.drop (row.1.length - 1))
termination_by text.length
decreasing_by
  · exact Text.cut_shorter (List.cons_ne_nil '&' []) _found
  · exact Nat.lt_of_le_of_lt (List.drop_sublist _ behind).length_le (Text.cut_shorter (List.cons_ne_nil '&' []) _found)

theorem table_starts : ∀ row ∈ table, row.1.head? = some '&' := by decide

theorem restore_passes {text before behind : Text} (found : Text.cut? ['&'] text = some (before, behind)) :
    restore text = before ++ restore ('&' :: behind) := by
  have outside : '&' ∉ before := Text.lacks_single.mp (Text.cut_first (List.cons_ne_nil '&' []) found)
  rw [Text.cut_parts found, List.append_assoc, List.singleton_append]
  exact Text.substitute_pass (fun row member => ⟨'&', table_starts row member, outside⟩) ('&' :: behind)

theorem scan_restores (text : Text) : scan text = restore text := by
  fun_induction scan text with
  | case1 text absent =>
      have bare : text.Lacks ['&'] := Text.cut_eq_none_iff.mp absent
      refine (restore_plain fun row member held => bare ?_).symm
      obtain ⟨mark, shape⟩ := List.head?_eq_some_iff.mp (table_starts row member)
      have front : ['&'] <+: row.1 := ⟨mark, shape.symm⟩
      exact front.isInfix.trans held
  | case2 text before behind found unread ih =>
      rw [restore_passes found, restore, Text.substitute_kept unread, ih]
      rfl
  | case3 text before behind found row read ih =>
      obtain ⟨mark, shape⟩ := List.head?_eq_some_iff.mp (table_starts row (Text.row_found read).1)
      have skipped : ('&' :: behind).drop row.1.length = behind.drop (row.1.length - 1) := by
        rw [shape, List.length_cons, List.drop_succ_cons, Nat.add_sub_cancel]
      rw [restore_passes found, restore, Text.substitute_replaced read (table_marked row (Text.row_found read).1), skipped, ih,
        List.append_assoc]
      rfl

theorem restore_replaces {rows : List Substitution} (order : rows.Perm table) (text : Text) :
    scan text = restore text ∧ restore text = rows.foldl (fun text row => text.replace row.1 row.2) text ∧
      (∀ row ∈ table, (restore text).Lacks row.1) ∧ restore (restore text) = restore text := by
  have gone : ∀ row ∈ table, (restore text).Lacks row.1 := fun row member => restore_gone member text
  exact ⟨scan_restores text, Text.substitute_replaces table_separate order text, gone, restore_plain gone⟩

-- A fence that is restored inside the pieces of a placeholder does not join them.
theorem restore_replaces_nested :
    let rows : List Substitution := [(tildeFence, "~~~".toList), (backtickFence, "```".toList), (tripleSlash, "///".toList)]
    let text : Text := "&trip&tripgrave;slash;&&triptilde;&tripslash".toList
    let restored : Text := "&trip```slash;&~~~&tripslash".toList
    rows.Perm table ∧ scan text = restored ∧ rows.foldl (fun text row => text.replace row.1 row.2) text = restored ∧
      restore restored = restored := by
  intro rows text restored
  have order : rows.Perm table := by decide
  obtain ⟨scanned, replaced, -, again⟩ := restore_replaces order text
  have once : restore text = restored := by decide
  rw [once] at scanned replaced again
  exact ⟨order, scanned, replaced.symm, again⟩

theorem restore_lacks {text mark : Text} (lacks : text.Lacks mark)
    (apart : ∀ row ∈ table, row.2.Breaks mark ∨ text.Lacks row.1) : (restore text).Lacks mark := by
  refine Text.edited_lacks (Text.substitute_edited table table_marked text) ?_ lacks
  rintro new ⟨row, member, stood, rfl⟩
  exact (apart row member).resolve_right fun absent => absent stood

theorem restore_append {tail : Text} (outside : ∀ c ∈ tail, ∀ row ∈ table, c ∉ row.1) (text : Text) :
    restore (text ++ tail) = restore text ++ tail := by
  cases tail with
  | nil => simp
  | cons c tail =>
      have kept := Text.substitute_id table_marked fun d held => outside d (List.mem_cons_of_mem c held)
      have apart := Text.substitute_apart table_marked (outside c List.mem_cons_self) text tail
      rw [kept] at apart
      exact apart

theorem restore_trim (text : Text) : (restore text).trim = restore text.trim := by
  have bare : ∀ row ∈ table, ∀ c ∈ row.1, isBlank c = false := by decide
  have solid : ∀ row ∈ table, row.2 ≠ [] ∧ row.2.Solid := by decide
  apply Text.substitute_trim table_marked _ solid
  intro c blank row member held
  rw [bare row member c held] at blank
  cases blank

theorem restore_firm {text : Text} (firm : text.Firm) : (restore text).Firm := by
  obtain ⟨front, c, rfl, seen⟩ := firm
  have written : ∀ row ∈ table, row.2 ≠ [] ∧ ∀ d ∈ row.2.getLast?, isBlank d = false := by decide
  have edited : Text.Edited _ (front ++ [c]) (restore (front ++ [c])) := Text.substitute_edited table table_marked (front ++ [c])
  have some : restore (front ++ [c]) ≠ [] := fun empty => by
    rw [empty] at edited
    have nothing := Text.edited_empty (fun new ⟨row, member, _, same⟩ => same ▸ (written row member).1) edited
    exact absurd nothing (by simp)
  obtain ⟨init, d, shape⟩ := (List.eq_nil_or_concat (restore (front ++ [c]))).resolve_left some
  rw [List.concat_eq_append] at shape
  refine ⟨init, d, shape, ?_⟩
  have last : d ∈ (restore (front ++ [c])).getLast? := by rw [shape, List.getLast?_concat]; rfl
  rcases Text.edited_last (fun new ⟨row, member, _, same⟩ => same ▸ (written row member).1) edited d last with same | ⟨new, ⟨row, member, -, rfl⟩, held⟩
  · rw [List.getLast?_concat, Option.mem_some_iff] at same
    exact same ▸ seen
  · exact (written row member).2 d held

section Cover

variable {rows : List Substitution} (chosen : ∀ row ∈ rows, row.swap ∈ table)

include chosen

theorem cover_subset : rows ⊆ table.map Prod.swap :=
  fun row member => List.mem_map.mpr ⟨row.swap, chosen row member, Prod.swap_swap row⟩

theorem cover_separate : Text.Separate rows :=
  Text.separate_subset fences_separate (cover_subset chosen)

theorem cover_marked : ∀ row ∈ rows, row.1 ≠ [] :=
  (cover_separate chosen).marked

theorem cover_apart {row : Substitution} (member : row ∈ table) : ∀ c ∈ row.1, ∀ other ∈ rows, c ∉ other.1 :=
  fun c held other stood same => table_separate.foreign other.swap (chosen other stood) row member c same held

theorem cover_solid : ∀ row ∈ rows, row.2 ≠ [] ∧ row.2.Solid := by
  have solid : ∀ row ∈ table, row.1 ≠ [] ∧ row.1.Solid := by decide
  exact fun row member => solid row.swap (chosen row member)

theorem cover_seen : ∀ c, isBlank c = true → ∀ row ∈ rows, c ∉ row.1 := by
  have seen : ∀ row ∈ table, ∀ c ∈ row.2, isBlank c = false := by decide
  intro c blank row member held
  rw [seen row.swap (chosen row member) c held] at blank
  cases blank

theorem cover_front {row : Substitution} (member : row ∈ table) {c : Char} {rest : Text} :
    row.1 <+: c :: Text.substitute rows rest ↔ row.1 <+: c :: rest := by
  obtain ⟨m, mark, shape⟩ := List.exists_cons_of_ne_nil (table_marked row member)
  rw [shape, List.cons_prefix_cons, List.cons_prefix_cons, and_congr_right_iff]
  intro _
  constructor
  · refine Text.edited_leads (Text.substitute_edited rows (cover_marked chosen) rest) ?_
    rintro new ⟨other, stood, -, rfl⟩
    have lead := table_once other.swap (chosen other stood) row member
    rw [shape] at lead
    exact lead
  · rintro ⟨behind, rfl⟩
    refine ⟨Text.substitute rows behind, (Text.substitute_outside_append (cover_marked chosen) ?_ behind).symm⟩
    exact fun d held => cover_apart chosen member d (shape ▸ List.mem_cons_of_mem m held)

theorem restore_cover (text : Text) : restore (Text.substitute rows text) = restore text := by
  have marked := cover_marked chosen
  induction text using Text.substitute_induction marked with
  | nil => rfl
  | kept c rest absent ih =>
      rw [Text.substitute_kept absent]
      exact restore_cons (fun row member => cover_front chosen member) ih
  | replaced row behind member found ih =>
      have hidden := restore_placeholder (chosen row member) (Text.substitute rows behind)
      have shown := restore_fence (chosen row member) behind
      rw [Prod.fst_swap, Prod.snd_swap] at hidden
      rw [Prod.snd_swap] at shown
      rw [Text.substitute_at (marked row member) found, hidden, shown, ih]

theorem cover_lacks {row : Substitution} (member : row ∈ rows) (text : Text) : (Text.substitute rows text).Lacks row.1 :=
  Text.substitute_gone (cover_separate chosen) member text

end Cover
end CodeFence.Placeholder
