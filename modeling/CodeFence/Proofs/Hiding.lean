import CodeFence.Proofs.Directive
import CodeFence.Proofs.Fence.Located

set_option autoImplicit false

namespace CodeFence

namespace Directive

theorem parse_unmarked {raw : Text} (lacks : raw.Lacks marker) : parse raw = ⟨(expandTabs raw).trim, []⟩ := by
  have bare : (expandTabs raw).trim.Lacks marker := Text.lacks_part (expandTabs_lacks (by decide) lacks) (Text.trim_inside _)
  rw [parse_read]
  apply read_plain
  intro leads
  obtain ⟨blanks, spec, rest, shape, -⟩ := leads
  apply bare
  rw [shape]
  simp only [List.append_assoc]
  exact (List.prefix_append marker _).isInfix

end Directive

namespace Placeholder

theorem cover_bare {rows : List Substitution} (chosen : ∀ row ∈ rows, row.swap ∈ table)
    (fences : ∀ family : Family, ∃ row ∈ rows, row.1 = family.token) (text : Text) (family : Family) :
    (text.substitute rows).Lacks family.token := by
  obtain ⟨row, member, same⟩ := fences family
  exact same ▸ cover_lacks chosen member text

theorem fences_chosen : ∀ row ∈ table.map Prod.swap, row.swap ∈ table := by decide

theorem hidden_lacks {row : Substitution} (member : row ∈ table) (code : Text) : (hide code).Lacks row.2 :=
  cover_lacks fences_chosen (List.mem_map_of_mem member) code

theorem hidden_bare (code : Text) (family : Family) : (hide code).Lacks family.token :=
  cover_bare fences_chosen (by rintro ⟨⟩ <;> decide) code family

theorem hidden_unmarked (code : Text) : (hide code).Lacks Directive.marker :=
  @hidden_lacks (tripleSlash, Directive.marker) (by decide) code

theorem restore_hidden {code : Text} (uncovered : ∀ row ∈ table, code.Lacks row.1) : restore (hide code) = code := by
  have shown : restore (hide code) = restore code := restore_cover fences_chosen code
  rw [shown, restore_plain uncovered]

theorem hide_undone {code : Text} (uncovered : ∀ row ∈ table, code.Lacks row.1) :
    hide code = (table.map Prod.swap).foldl (fun text row => text.replace row.1 row.2) code ∧
      (∀ row ∈ table, (hide code).Lacks row.2) ∧
      (∀ family : Family, (hide code).Lacks family.token ∧ family.locate (hide code) = .clear) ∧
      Directive.parse (hide code) = ⟨(Directive.expandTabs (hide code)).trim, []⟩ ∧ restore (hide code) = code := by
  have replaced : hide code = (table.map Prod.swap).foldl (fun text row => text.replace row.1 row.2) code :=
    Text.substitute_replaces fences_separate (List.Perm.refl _) code
  have unread (family : Family) : family.locate (hide code) = .clear :=
    Family.locate_clear_iff.mpr (Family.clear_of_token (hidden_bare code family))
  refine ⟨replaced, fun row member => hidden_lacks member code, fun family => ⟨hidden_bare code family, unread family⟩, ?_, ?_⟩
  · exact Directive.parse_unmarked (hidden_unmarked code)
  · exact restore_hidden uncovered

theorem hide_undone_runs :
    let code : Text := "///highlight:1\n&trip````grave;&~~~~~~".toList
    let hidden : Text := "&tripslash;highlight:1\n&trip&tripgrave;`grave;&&triptilde;&triptilde;".toList
    (∀ row ∈ table, code.Lacks row.1) ∧ hide code = hidden ∧ (∀ row ∈ table, hidden.Lacks row.2) ∧
      (∀ family : Family, hidden.Lacks family.token ∧ family.locate hidden = .clear) ∧
      (Directive.parse hidden).lines = [] ∧ restore hidden = code := by
  intro code hidden
  have uncovered : ∀ row ∈ table, code.Lacks row.1 := by decide
  obtain ⟨-, lacks, unread, parsed, restored⟩ := hide_undone uncovered
  have written : hide code = hidden := by decide +kernel
  rw [written] at lacks unread parsed restored
  exact ⟨uncovered, written, lacks, unread, congrArg Directive.lines parsed, restored⟩

end Placeholder

namespace Directive

theorem parse_hidden (code : Text) : parse (Placeholder.hide code) = ⟨Placeholder.hide (expandTabs code).trim, []⟩ := by
  rw [parse_unmarked (Placeholder.hidden_unmarked code)]
  exact congrArg (Directive.mk · []) (trim_cover Placeholder.fences_chosen code)

end Directive
end CodeFence
