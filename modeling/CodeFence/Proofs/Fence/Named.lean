import CodeFence.Proofs.Fence.Block

set_option autoImplicit false

namespace CodeFence

namespace Language

theorem all_ordered : all.Pairwise fun first later => ¬ first.tag <+: later.tag := by
  decide

theorem tag_visible (language : Language) : language.tag.Visible := by
  cases language <;> decide

theorem tag_trim (language : Language) (line : Text) :
    ∃ more, Text.trim (language.tag ++ line) = language.tag ++ more ∧ more <+: line := by
  obtain ⟨some, seen⟩ := language.tag_visible
  have front (rest : Text) : Text.trimStart (language.tag ++ rest) = language.tag ++ rest := by
    apply Text.trimStart_id
    rw [List.head?_append_of_ne_nil _ some]
    exact fun c first => seen c (List.mem_of_mem_head? first)
  by_cases blank : line.AllBlank
  · have whole : language.tag.trimEnd = language.tag := Text.trimEnd_id fun c last => seen c (List.mem_of_getLast? last)
    refine ⟨[], ?_, List.nil_prefix⟩
    rw [Text.trim, front, Text.trimEnd_blank blank, whole, List.append_nil]
  · obtain ⟨blanks, -, split⟩ := Text.trimEnd_split line
    refine ⟨line.trimEnd, ?_, ⟨blanks, split.symm⟩⟩
    rw [Text.trim, front, Text.trimEnd_append blank]

end Language

namespace Family

variable {family : Family} {text : Text}

theorem opening_longest {behind : Text} {language other : Language} (found : family.opening? text = some (language, behind))
    (fits : family.opener other <+: text) (longer : language.tag <+: other.tag) : language = other := by
  obtain ⟨rest, opened, tagged⟩ := Option.bind_eq_some_iff.mp found
  obtain ⟨first, candidate, later, split, matched, unfit⟩ := List.findSome?_eq_some_iff.mp tagged
  obtain ⟨_, -, same⟩ := Option.map_eq_some_iff.mp matched
  obtain ⟨rfl, rfl⟩ := Prod.mk.inj same
  rw [Text.strip_eq_some_iff.mp opened] at fits
  have here : other.tag <+: rest := (List.prefix_append_right_inj family.token).mp fits
  have member : other ∈ first ++ candidate :: later := split ▸ other.mem_all
  rcases List.mem_append.mp member with early | behind
  · have none := unfit other early
    rw [Option.map_eq_none_iff, Text.strip_eq_none_iff] at none
    exact absurd here none
  · rcases List.mem_cons.mp behind with same | late
    · exact same.symm
    · have ordered := Language.all_ordered
      rw [split, List.pairwise_append, List.pairwise_cons] at ordered
      exact absurd longer (ordered.2.1.1 other late)

theorem findOpening_opening {found : Opening} (located : family.findOpening? text = some found) :
    family.opening? (family.opener found.language ++ found.behind) = some (found.language, found.behind) := by
  induction text generalizing found with
  | nil => cases located
  | cons c rest ih =>
      cases here : family.opening? (c :: rest) with
      | some opener =>
          simp only [findOpening?, here, Option.some.injEq] at located
          rw [opening_parts here] at here
          rw [← located]
          exact here
      | none =>
          simp only [findOpening?, here, Option.map_eq_some_iff] at located
          obtain ⟨inner, deeper, rfl⟩ := located
          have inside := ih deeper
          exact inside

theorem locate_longest {span : Span} {other : Language} (located : family.locate text = .closed span)
    (fits : family.opener other <+: span.raw family) (longer : span.language.tag <+: other.tag) : span.language = other := by
  obtain ⟨rest, found, cut⟩ := locate_closed_iff.mp located
  have opened := findOpening_opening found
  have inside : span.raw family <+: family.opener span.language ++ rest := by
    refine ⟨span.behind, ?_⟩
    rw [Span.raw_opened, Text.cut_parts cut]
    simp only [List.append_assoc]
  exact opening_longest opened (fits.trans inside) longer

end Family

theorem Block.parse_located {family : Family} {text : Text} {span : Span} (located : family.locate text = .closed span) :
    (∃ code, Block.parse family (span.raw family) = .ok ⟨span.language, code⟩) ∨
      ∃ tag, Block.parse family (span.raw family) = .error (.unknownLanguage tag) ∧
        span.language.tag <+: tag ∧ span.language.tag ≠ tag := by
  have solid : Text.trim (span.raw family) = span.raw family := by
    rw [Span.raw_opened]
    exact Block.opened_solid family span.language span.body
  obtain ⟨line, body, lines⟩ := Text.lines_front (family.newline_apart span.language) (span.body ++ family.token)
  rw [← List.append_assoc, ← Span.raw_opened] at lines
  have within : family.opener span.language ++ line <+: span.raw family := Text.lines_first lines
  obtain ⟨more, name, front⟩ := span.language.tag_trim line
  rw [parse_lines solid lines, name]
  cases named : Language.ofTag? (span.language.tag ++ more) with
  | none =>
      refine Or.inr ⟨_, rfl, List.prefix_append _ _, fun same => ?_⟩
      rw [← same, Language.ofTag_tag] at named
      cases named
  | some read =>
      have tag := Language.tag_of_ofTag named
      have opener : family.opener read <+: family.opener span.language ++ line := by
        obtain ⟨rest, split⟩ := front
        refine ⟨rest, ?_⟩
        rw [Family.opener, tag, ← split]
        simp [Family.opener]
      have same := Family.locate_longest located (opener.trans within) (tag ▸ List.prefix_append _ _)
      exact Or.inl ⟨_, by rw [same]⟩

end CodeFence
