import CodeFence.Proofs.Engine.Plain
import CodeFence.Proofs.Markup.Numbered

set_option autoImplicit false

namespace CodeFence.Highlighter

theorem directive_flags {highlighter : Highlighter} (steady : highlighter.engine.Steady) {spec body : Text} (single : '\n' ∉ spec)
    (filled : ¬ body.AllBlank) (plain : ¬ Directive.Leads (Directive.expandTabs body).trim) (first second : Nat)
    (language : Language) :
    let marked := Directive.before spec body
    highlighter.request (code marked) language = highlighter.request (code body) language ∧
      ((∃ fault, highlighter.fragment first marked language = .error fault ∧
          highlighter.fragment second body language = .error fault) ∨
        ∃ root flagged bare, highlighter.engine second (highlighter.request (code body) language) = .tree root ∧
          highlighter.tree first (code marked) language (Directive.parse marked).lines = .ok flagged ∧
          highlighter.tree second (code body) language (Directive.parse body).lines = .ok bare ∧
          highlighter.fragment first marked language = .ok (highlighter.wrap flagged.html.escapeTemplate) ∧
          highlighter.fragment second body language = .ok (highlighter.wrap bare.html.escapeTemplate) ∧
          (root.Bare lineHighlighted →
            flagged.without lineHighlighted = bare ∧ root.Flagged flagged (LineRange.parseList spec))) := by
  intro marked
  have asked : highlighter.request (code marked) language = highlighter.request (code body) language :=
    congrArg (highlighter.request · language) (code_before single filled plain)
  have ranges : (Directive.parse marked).lines = LineRange.parseList spec :=
    congrArg Directive.lines (Directive.parse_before single filled)
  have unnamed : (Directive.parse body).lines = [] := by rw [Directive.parse_read, Directive.read_plain plain]
  refine ⟨asked, ?_⟩
  rw [fragment_settled, fragment_settled, tree_settled, tree_settled, asked, ranges, unnamed, steady first second]
  cases answered : highlighter.engine second (highlighter.request (code body) language) with
  | failure fault => exact Or.inl ⟨fault, rfl, rfl⟩
  | crash message => exact Or.inl ⟨_, rfl, rfl⟩
  | tree root =>
      refine Or.inr ⟨root, root.numberLines (LineRange.parseList spec), root.numberLines [], rfl, rfl, rfl, rfl, rfl, fun bare => ?_⟩
      exact ⟨number_lines_without _ bare, number_lines_flagged _ bare⟩

-- The ranges flag the second line; there is no fourth line and no fifth.
theorem directive_flags_second :
    let highlighter : Highlighter := { engine := Engine.plain }
    let body : Text := "\n\ta &tripslash;\nb".toList
    ∃ root flagged bare, highlighter.tree 1 "a ///\nb".toList .ts [⟨2, 2⟩, ⟨4, 5⟩] = .ok flagged ∧
      highlighter.tree 0 "a ///\nb".toList .ts [] = .ok bare ∧
      highlighter.fragment 1 (Directive.before "2,\t4-5".toList body) .ts = .ok (highlighter.wrap flagged.html.escapeTemplate) ∧
      flagged.without lineHighlighted = bare ∧ Element.Flagged root flagged [⟨2, 2⟩, ⟨4, 5⟩] := by
  intro highlighter body
  have filled : ¬ body.AllBlank := fun blank => absurd (blank 'a' (by decide)) (by decide)
  have plain : ¬ Directive.Leads (Directive.expandTabs body).trim := by
    rintro ⟨blanks, spec, rest, shape, -⟩
    have lead : (Directive.expandTabs body).trim.head? = some 'a' := by decide
    rw [shape] at lead
    exact absurd (Option.some.inj lead : '/' = 'a') (by decide)
  have shown := @directive_flags highlighter Engine.plain_steady "2,\t4-5".toList body (by decide) filled plain 1 0 .ts
  have asked : code (Directive.before "2,\t4-5".toList body) = "a ///\nb".toList ∧ code body = "a ///\nb".toList := by decide
  have read : (Directive.parse (Directive.before "2,\t4-5".toList body)).lines = [⟨2, 2⟩, ⟨4, 5⟩] ∧
      (Directive.parse body).lines = [] := by decide
  have ranges : LineRange.parseList "2,\t4-5".toList = [⟨2, 2⟩, ⟨4, 5⟩] := by decide
  simp only [asked, read, ranges] at shown
  obtain ⟨-, ⟨fault, refused, -⟩ | ⟨root, flagged, bare, answered, first, second, made, -, agree⟩⟩ := shown
  · cases fragment_error_iff.mp refused
  · obtain rfl := Answer.tree.inj answered
    obtain ⟨same, flags⟩ := agree (by decide +kernel)
    exact ⟨_, flagged, bare, first, second, made, same, flags⟩

end CodeFence.Highlighter
