import CodeFence.Engine.Tokens
import CodeFence.Proofs.Fence.Block
import CodeFence.Proofs.Markup.Labels

set_option autoImplicit false

namespace CodeFence

open Text (Lacks Divider)

def Plain.names : List Text :=
  ["pre".toList, "code".toList, "span".toList, "class".toList, "style".toList, "tabindex".toList]

theorem line_chars (pieces : List Styled) : (Node.element (lineElement pieces)).chars = pieces.flatMap Styled.text := by
  rw [lineElement, Node.chars]
  induction pieces with
  | nil => rfl
  | cons piece pieces ih =>
      have here : (Node.element piece.element).chars = piece.text := by simp [Styled.element, Node.chars, Node.allChars]
      rw [List.map_cons, Node.allChars, here, ih, List.flatMap_cons]

theorem code_chars (lines : List (List Styled)) : (Node.element (codeElement lines)).chars =
    Text.unlines (lines.map fun pieces => pieces.flatMap Styled.text) := by
  rw [codeElement, Node.chars]
  induction lines with
  | nil => rfl
  | cons first rest ih =>
      cases rest with
      | nil => simp [Node.allChars, line_chars, Text.unlines]
      | cons second rest =>
          simp only [List.map_cons, List.intersperse_cons_cons, Node.allChars, line_chars] at ih ⊢
          rw [ih, Text.unlines_cons _ (List.cons_ne_nil _ _)]
          rfl

theorem block_chars (className style : Text) (lines : List (List Styled)) : (blockElement className style lines).chars =
    Text.unlines (lines.map fun pieces => pieces.flatMap Styled.text) := by
  rw [Element.chars, blockElement, Node.allChars, Node.allChars, code_chars, List.append_nil]

section Labels

variable {name value : Text → Prop} (named : ∀ tag ∈ Plain.names, name tag)

include named

theorem line_labelled {pieces : List Styled} (classed : value lineClass) (styled : ∀ piece ∈ pieces, value piece.style) :
    (Node.element (lineElement pieces)).Labelled name value := by
  have outer : Properties.Fits name value [("class".toList, .str lineClass)] := by
    simp only [Properties.Fits, List.forall_mem_singleton]
    exact ⟨named _ (by decide), classed⟩
  refine ⟨named _ (by decide), outer, all_labelled fun node held => ?_⟩
  obtain ⟨piece, member, rfl⟩ := List.mem_map.mp held
  have inner : Properties.Fits name value [("style".toList, .str piece.style)] := by
    simp only [Properties.Fits, List.forall_mem_singleton]
    exact ⟨named _ (by decide), styled piece member⟩
  exact ⟨named _ (by decide), inner, trivial, trivial⟩

theorem code_labelled {lines : List (List Styled)} (classed : value lineClass)
    (styled : ∀ pieces ∈ lines, ∀ piece ∈ pieces, value piece.style) : (Node.element (codeElement lines)).Labelled name value := by
  refine ⟨named _ (by decide), fun entry held => absurd held List.not_mem_nil, ?_⟩
  induction lines with
  | nil => trivial
  | cons first rest ih =>
      obtain ⟨here, later⟩ := List.forall_mem_cons.mp styled
      have row := line_labelled named classed here
      cases rest with
      | nil => exact ⟨row, trivial⟩
      | cons second rest => exact ⟨row, trivial, ih later⟩

theorem block_labelled {className style : Text} {lines : List (List Styled)} (fixed : ∀ chars ∈ [className, "0".toList, lineClass], value chars)
    (around : value style) (styled : ∀ pieces ∈ lines, ∀ piece ∈ pieces, value piece.style) :
    (Node.element (blockElement className style lines)).Labelled name value := by
  have properties : Properties.Fits name value
      [("class".toList, .str className), ("style".toList, .str style), ("tabindex".toList, .str "0".toList)] := by
    simp only [Properties.Fits, List.forall_mem_cons]
    exact ⟨⟨named _ (by decide), fixed _ (by simp)⟩, ⟨named _ (by decide), around⟩,
      ⟨named _ (by decide), fixed _ (by simp)⟩, by simp⟩
  exact ⟨named _ (by decide), properties, code_labelled named (fixed _ (by simp)) styled, trivial⟩

end Labels

def Declaration.Fits (stem : Text) (themes : ThemePair) (declaration : Declaration) : Prop :=
  ∃ theme suffix : Text, (theme = themes.dark ∨ theme = themes.light) ∧ declaration.name = stem ++ theme ++ suffix ∧
    Divider (suffix ++ ":".toList) ∧ declaration.value.Quiet

theorem declaration_lacks {mark stem : Text} {themes : ThemePair} (fence : mark.FenceMark)
    (dark : Lacks (stem ++ themes.dark) mark) (light : Lacks (stem ++ themes.light) mark) {declaration : Declaration}
    (fits : declaration.Fits stem themes) : declaration.text.Lacks mark := by
  obtain ⟨theme, suffix, side, name, divider, quiet⟩ := fits
  have breaks := Text.divider_breaks fence (Text.divider_append divider quiet)
  have named : Lacks (stem ++ theme) mark := by
    rcases side with rfl | rfl
    · exact dark
    · exact light
  rw [Declaration.text, name, List.append_assoc, List.append_assoc, ← List.append_assoc suffix]
  exact (Text.lacks_broken_end breaks _).mpr named

theorem style_lacks {mark stem : Text} {themes : ThemePair} (fence : mark.FenceMark)
    (dark : Lacks (stem ++ themes.dark) mark) (light : Lacks (stem ++ themes.light) mark) {declarations : List Declaration}
    (fit : ∀ declaration ∈ declarations, declaration.Fits stem themes) : (styleText declarations).Lacks mark := by
  have separator : Divider ";".toList := by decide
  refine Text.intercalate_lacks (Text.divider_breaks fence separator) fun part held => ?_
  obtain ⟨declaration, member, rfl⟩ := List.mem_map.mp held
  exact declaration_lacks fence dark light (fit declaration member)

theorem hex_quiet (color : Color) : color.hex.Quiet := by
  have digit : ∀ n < 16, isFence (Color.hexDigit n) = false := by decide
  have pair (channel : UInt8) : (Color.hexPair channel).Quiet := by
    have bound : channel.toNat < 256 := channel.toNat_lt
    intro c held
    simp only [Color.hexPair, List.mem_cons, List.not_mem_nil, or_false] at held
    rcases held with same | same
    · rw [same]
      exact digit _ (by omega)
    · rw [same]
      exact digit _ (by omega)
  have alpha : Text.Quiet (if color.alpha = 255 then [] else Color.hexPair color.alpha) := by
    by_cases full : color.alpha = 255
    · rw [if_pos full]
      exact fun c held => absurd held List.not_mem_nil
    · rw [if_neg full]
      exact pair color.alpha
  have sign : Text.Quiet ['#'] := by decide
  have channels := Text.quiet_append.mpr ⟨Text.quiet_append.mpr ⟨pair color.red, pair color.green⟩, pair color.blue⟩
  exact Text.quiet_append.mpr ⟨sign, Text.quiet_append.mpr ⟨channels, alpha⟩⟩

section Fits

variable (stem : Text) (themes : ThemePair)

theorem color_fits {suffix dark light : Text} (divider : Divider (suffix ++ ":".toList)) (first : dark.Quiet) (second : light.Quiet) :
    ∀ declaration ∈ colorDeclarations stem themes suffix dark light, declaration.Fits stem themes := by
  simp only [colorDeclarations, List.forall_mem_cons]
  exact ⟨⟨themes.dark, suffix, Or.inl rfl, rfl, divider, first⟩, ⟨themes.light, suffix, Or.inr rfl, rfl, divider, second⟩,
    List.forall_mem_nil _⟩

theorem font_fits {theme : Text} (side : theme = themes.dark ∨ theme = themes.light) (font : FontStyle) :
    ∀ declaration ∈ font.declarations stem theme, declaration.Fits stem themes := by
  have quiet : Text.Quiet "italic".toList ∧ Text.Quiet "bold".toList ∧ Text.Quiet "underline".toList := by decide
  intro declaration held
  simp only [FontStyle.declarations, List.mem_append, List.mem_ite_nil_right, List.mem_singleton] at held
  rcases held with (⟨-, rfl⟩ | ⟨-, rfl⟩) | ⟨-, rfl⟩
  · exact ⟨theme, "-font-style".toList, side, rfl, by decide, quiet.1⟩
  · exact ⟨theme, "-font-weight".toList, side, rfl, by decide, quiet.2.1⟩
  · exact ⟨theme, "-text-decoration".toList, side, rfl, by decide, quiet.2.2⟩

theorem token_fits (token : Token) : ∀ declaration ∈ token.declarations stem themes, declaration.Fits stem themes := by
  intro declaration held
  simp only [Token.declarations, List.mem_append] at held
  rcases held with (color | dark) | light
  · exact color_fits stem themes (by decide) (hex_quiet _) (hex_quiet _) declaration color
  · exact font_fits stem themes (Or.inl rfl) _ declaration dark
  · exact font_fits stem themes (Or.inr rfl) _ declaration light

theorem backdrop_fits (dark light : Backdrop) :
    ∀ declaration ∈ blockDeclarations stem themes dark light, declaration.Fits stem themes := by
  intro declaration held
  rcases List.mem_append.mp held with color | background
  · exact color_fits stem themes (by decide) (hex_quiet _) (hex_quiet _) declaration color
  · exact color_fits stem themes (by decide) (hex_quiet _) (hex_quiet _) declaration background

end Fits

end CodeFence
