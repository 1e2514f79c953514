import CodeFence.Proofs.Text.Trim

set_option autoImplicit false

namespace CodeFence.Text

theorem lines_break (first rest : Text) : lines (first ++ '\n' :: rest) = lines first ++ lines rest :=
  List.splitOn_append_cons_self first rest

theorem lines_single {line : Text} (whole : '\n' ∉ line) : lines line = [line] :=
  List.splitOn_eq_singleton whole

theorem lines_unlines {lines : List Text} (some : lines ≠ []) (whole : ∀ line ∈ lines, '\n' ∉ line) :
    (unlines lines).lines = lines :=
  List.splitOn_intercalate '\n' whole some

theorem lines_front {front : Text} (whole : '\n' ∉ front) (rest : Text) : ∃ line body, lines (front ++ rest) = (front ++ line) :: body := by
  by_cases newline : '\n' ∈ rest
  · obtain ⟨line, inner, rfl, fresh⟩ := List.eq_append_cons_of_mem newline
    have single : lines (front ++ line) = [front ++ line] := lines_single (by simp [whole, fresh])
    refine ⟨line, lines inner, ?_⟩
    rw [← List.append_assoc, lines_break, single]
    rfl
  · exact ⟨rest, [], lines_single (by simp [whole, newline])⟩

theorem lines_filled {text : Text} (solid : text.Solid) (filled : text ≠ []) : ∃ c line body, text.lines = (c :: line) :: body := by
  obtain ⟨c, rest, rfl⟩ := List.exists_cons_of_ne_nil filled
  have whole : '\n' ∉ [c] := by
    intro held
    have seen := solid.1 c rfl
    rw [← List.mem_singleton.mp held] at seen
    exact absurd seen (by decide)
  obtain ⟨line, body, lines⟩ := lines_front whole rest
  exact ⟨c, line, body, lines⟩

def lastLine (text : Text) : Text :=
  text.lines.getLastD []

theorem lines_last (code : Text) : ∃ init, ∀ more : Text, '\n' ∉ more → (code ++ more).lines = init ++ [code.lastLine ++ more] := by
  obtain ⟨init, last, longer⟩ : ∃ init last, ∀ more : Text, '\n' ∉ more → (code ++ more).lines = init ++ [last ++ more] := by
    induction code with
    | nil => exact ⟨[], [], fun more whole => lines_single whole⟩
    | cons c rest ih =>
        obtain ⟨init, last, longer⟩ := ih
        by_cases newline : c = '\n'
        · subst newline
          refine ⟨[] :: init, last, fun more whole => ?_⟩
          exact (lines_break [] (rest ++ more)).trans (congrArg (List.cons []) (longer more whole))
        · have other : (c == '\n') = false := beq_eq_false_iff_ne.mpr newline
          have front (text : Text) : lines (c :: text) = (lines text).modifyHead (List.cons c) := by
            rw [lines, List.splitOn_cons_eq_if_modifyHead, other]
            rfl
          cases init with
          | nil =>
              refine ⟨[], c :: last, fun more whole => ?_⟩
              rw [List.cons_append, front, longer more whole]
              rfl
          | cons first init =>
              refine ⟨(c :: first) :: init, last, fun more whole => ?_⟩
              rw [List.cons_append, front, longer more whole]
              rfl
  have alone := longer [] List.not_mem_nil
  rw [List.append_nil, List.append_nil] at alone
  refine ⟨init, fun more whole => ?_⟩
  rw [longer more whole, lastLine, alone, List.getLastD_concat]

theorem lines_ends (code : Text) : code.lastLine ∈ code.lines.getLast? := by
  obtain ⟨init, longer⟩ := lines_last code
  have alone := longer [] List.not_mem_nil
  rw [List.append_nil, List.append_nil] at alone
  rw [alone, Option.mem_def, List.getLast?_concat]

theorem lastLine_append {more : Text} (whole : '\n' ∉ more) (code : Text) : lastLine (code ++ more) = code.lastLine ++ more := by
  obtain ⟨init, longer⟩ := lines_last code
  rw [lastLine, longer more whole, List.getLastD_concat]

theorem unlines_cons (line : Text) {rest : List Text} (more : rest ≠ []) :
    unlines (line :: rest) = line ++ '\n' :: unlines rest := by
  rw [unlines, List.intercalate_cons_of_ne_nil more]
  simp [unlines]

theorem lines_first {text first : Text} {body : List Text} (split : text.lines = first :: body) : first <+: text := by
  have back := unlines_lines text
  rw [split] at back
  cases body with
  | nil =>
      rw [← back]
      simp [unlines]
  | cons second body =>
      rw [unlines_cons first (List.cons_ne_nil second body)] at back
      exact ⟨_, back⟩

theorem lines_mark_iff {mark : Text} (whole : '\n' ∉ mark) {text : Text} :
    mark <+: text ↔ ∃ rest body, text.lines = (mark ++ rest) :: body := by
  constructor
  · intro found
    obtain ⟨rest, rfl⟩ := found
    exact lines_front whole rest
  · intro found
    obtain ⟨rest, body, split⟩ := found
    exact (List.prefix_append mark rest).trans (lines_first split)

theorem line_inside {line : Text} {lines : List Text} (member : line ∈ lines) : line <:+: unlines lines := by
  induction lines with
  | nil => cases member
  | cons first rest ih =>
      cases rest with
      | nil =>
          rw [List.mem_singleton] at member
          rw [member]
          simp [unlines]
      | cons second rest =>
          rw [unlines_cons first (List.cons_ne_nil second rest)]
          rcases List.mem_cons.mp member with rfl | later
          · exact (List.prefix_append line _).isInfix
          · refine (ih later).trans ((List.suffix_cons '\n' _).trans (List.suffix_append first _)).isInfix

theorem unlines_blank {lines : List Text} (blank : ∀ line ∈ lines, line.AllBlank) : (unlines lines).AllBlank := by
  induction lines with
  | nil => exact fun c held => absurd held List.not_mem_nil
  | cons first rest ih =>
      obtain ⟨here, later⟩ := List.forall_mem_cons.mp blank
      cases rest with
      | nil => simpa [unlines] using here
      | cons second rest =>
          rw [unlines_cons first (List.cons_ne_nil second rest)]
          intro c held
          rcases List.mem_append.mp held with front | back
          · exact here c front
          · rcases List.mem_cons.mp back with rfl | deeper
            · decide
            · exact ih later c deeper

theorem unlines_append (kept closing : List Text) :
    ∃ tail, unlines (kept ++ closing) = unlines kept ++ tail ∧ ((∀ line ∈ closing, line.AllBlank) → AllBlank tail) := by
  induction kept with
  | nil => exact ⟨unlines closing, rfl, unlines_blank⟩
  | cons first rest ih =>
      cases rest with
      | nil =>
          cases closing with
          | nil => exact ⟨[], by simp, fun _ c held => absurd held List.not_mem_nil⟩
          | cons second closing =>
              refine ⟨'\n' :: unlines (second :: closing), ?_, fun blank => ?_⟩
              · rw [List.singleton_append, unlines_cons first (List.cons_ne_nil second closing)]
                simp [unlines]
              · exact List.forall_mem_cons.mpr ⟨by decide, unlines_blank blank⟩
      | cons second rest =>
          obtain ⟨tail, split, blank⟩ := ih
          refine ⟨tail, ?_, blank⟩
          rw [List.cons_append, unlines_cons first (by simp), split, unlines_cons first (List.cons_ne_nil second rest)]
          simp

end CodeFence.Text
