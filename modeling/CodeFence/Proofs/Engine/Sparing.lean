import CodeFence.Engine.Plain
import CodeFence.Proofs.Engine.Library
import CodeFence.Proofs.Engine.Plain
import CodeFence.Proofs.Markup.Entire
import CodeFence.Proofs.Weight

set_option autoImplicit false

namespace CodeFence

namespace Highlighter

-- What the engine answers to this highlighter's requests has tildes in its texts only, and no more than the code.
def Sparing (highlighter : Highlighter) : Prop :=
  ∀ earlier code language root, highlighter.engine earlier (highlighter.request code language) = .tree root →
    root.chars.count '~' ≤ code.count '~' ∧
      (Node.element root).Labelled (fun name => '~' ∉ name ∧ '&' ∉ name) ('~' ∉ ·)

def Untilded (highlighter : Highlighter) : Prop :=
  '~' ∉ highlighter.stem ∧ '~' ∉ highlighter.themes.dark ∧ '~' ∉ highlighter.themes.light

instance (highlighter : Highlighter) : Decidable highlighter.Untilded :=
  inferInstanceAs (Decidable ('~' ∉ highlighter.stem ∧ '~' ∉ highlighter.themes.dark ∧ '~' ∉ highlighter.themes.light))

variable {highlighter : Highlighter}

theorem styles_plain (untilded : highlighter.Untilded) {declarations : List Declaration}
    (fit : ∀ declaration ∈ declarations, declaration.Fits highlighter.stem highlighter.themes) : '~' ∉ styleText declarations := by
  obtain ⟨stem, dark, light⟩ := untilded
  have fence : Text.FenceMark ['~'] := by decide
  have first : Text.Lacks (highlighter.stem ++ highlighter.themes.dark) ['~'] := by simp [Text.lacks_single, stem, dark]
  have second : Text.Lacks (highlighter.stem ++ highlighter.themes.light) ['~'] := by simp [Text.lacks_single, stem, light]
  exact Text.lacks_single.mp (style_lacks fence first second fit)

theorem names_plain : ∀ name ∈ Plain.names, '~' ∉ name ∧ '&' ∉ name := by decide

theorem plain_sparing (plain : highlighter.engine = Engine.plain) (untilded : highlighter.Untilded) : highlighter.Sparing := by
  intro earlier code language root answered
  rw [plain] at answered
  obtain rfl := Answer.tree.inj answered
  constructor
  · rw [Plain.tree_chars]
    exact Nat.le_refl _
  · have fixed : ∀ chars ∈ ["fake".toList, "0".toList, lineClass], '~' ∉ chars := by decide
    refine block_labelled names_plain fixed (styles_plain untilded (Plain.block_fits _ _)) fun pieces row piece held => ?_
    obtain ⟨text, -, rfl⟩ := List.mem_map.mp row
    unfold Plain.line at held
    split at held
    · cases held
    · rw [List.mem_singleton.mp held]
      exact styles_plain untilded (Plain.piece_fits _ _)

theorem library_sparing {library : Library} (faithful : library.Faithful) (engine : highlighter.engine = library.engine)
    (untilded : highlighter.Untilded) : highlighter.Sparing := by
  intro earlier code language root answered
  rw [engine] at answered
  constructor
  · rw [Library.answer_chars faithful answered, normalizeLineEnds_tildes]
    exact Nat.le_refl _
  · obtain ⟨result, -, rfl⟩ := Library.answer_tree answered
    have fixed : ∀ chars ∈ ["giallo".toList, "0".toList, lineClass], '~' ∉ chars := by decide
    have around := styles_plain untilded (backdrop_fits _ _ result.theme.dark result.theme.light)
    refine block_labelled names_plain fixed around fun pieces row piece held => ?_
    obtain ⟨tokens, -, rfl⟩ := List.mem_map.mp row
    obtain ⟨token, -, rfl⟩ := List.mem_map.mp held
    exact styles_plain untilded (token_fits _ _ token)

theorem wrap_tildes (bare : '~' ∉ highlighter.wrapperClass) (html : Text) :
    (highlighter.wrap html.escapeTemplate).count '~' = html.count '~' := by
  rw [wrap_count (by decide), escape_markup_tildes, escape_template_tildes, List.count_eq_zero.mpr bare, Nat.zero_add]

theorem fragment_sparing (sparing : highlighter.Sparing) (bare : '~' ∉ highlighter.wrapperClass) {earlier : Nat} {raw html : Text}
    {language : Language} (made : highlighter.fragment earlier raw language = .ok html) :
    html.count '~' ≤ raw.weight ∧ html.Lacks Placeholder.tildeFence := by
  obtain ⟨root, answered, rfl⟩ := fragment_ok_iff.mp made
  obtain ⟨tildes, labelled⟩ := sparing _ _ _ _ answered
  have numbered := number_lines_labelled (by decide) labelled (Directive.parse raw).lines
  constructor
  · have plain := labelled_imp (fun _ named => named.1) (fun _ valued => valued) _ numbered
    have inner : (root.numberLines (Directive.parse raw).lines).html.count '~' = root.chars.count '~' :=
      (node_html_tildes _ plain).trans (congrArg (List.count '~') (Element.numberLines_chars _ root))
    rw [wrap_tildes bare, inner]
    exact tildes.trans (code_tildes raw)
  · have tree := labelled_imp (fun _ named => Text.plain_shown named.2) (fun _ _ => trivial) _ numbered
    exact Text.entire_uncovered (wrap_entire highlighter (node_html_shown _ tree))

end Highlighter
end CodeFence
