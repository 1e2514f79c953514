import CodeFence.Config
import CodeFence.Engine.Plain
import CodeFence.Proofs.Engine.Tokens
import CodeFence.Proofs.Highlighter

set_option autoImplicit false

namespace CodeFence

open Text (Lacks Divider)

namespace Text

theorem unlines_lacks {lines : List Text} {mark : Text} (whole : '\n' ∉ mark) (marked : mark ≠ [])
    (lacks : ∀ line ∈ lines, line.Lacks mark) : (unlines lines).Lacks mark := by
  induction lines with
  | nil => exact lacks_nil marked
  | cons first rest ih =>
      obtain ⟨here, later⟩ := List.forall_mem_cons.mp lacks
      by_cases more : rest = []
      · rw [more]
        simpa [unlines] using here
      · rw [unlines_cons first more]
        exact (lacks_apart whole).mpr ⟨here, ih later⟩

theorem fence_mark_whole {mark : Text} (fence : mark.FenceMark) : '\n' ∉ mark := by
  intro held
  rcases fence.2 '\n' held with loud | small
  · revert loud
    decide
  · revert small
    decide

end Text

def Highlighter.Unstyled (highlighter : Highlighter) (mark : Text) : Prop :=
  Lacks (highlighter.stem ++ highlighter.themes.dark) mark ∧ Lacks (highlighter.stem ++ highlighter.themes.light) mark

def Highlighter.Unmarked (highlighter : Highlighter) (mark : Text) : Prop :=
  highlighter.wrapperClass.Lacks mark ∧ highlighter.Unstyled mark

def Highlighter.markup (highlighter : Highlighter) (code : Text) (language : Language) (lines : List LineRange) : Text :=
  ((Plain.tree (highlighter.request code language)).numberLines lines).html.escapeTemplate

namespace Plain

theorem block_fits (stem : Text) (themes : ThemePair) : ∀ declaration ∈ block stem themes, declaration.Fits stem themes :=
  backdrop_fits stem themes _ _

theorem piece_fits (stem : Text) (themes : ThemePair) : ∀ declaration ∈ piece stem themes, declaration.Fits stem themes :=
  color_fits stem themes (by decide) (hex_quiet _) (hex_quiet _)

def values : List Text :=
  ["fake".toList, "0".toList, lineClass, ['\n']]

theorem line_text (stem : Text) (themes : ThemePair) (text : Text) : (line stem themes text).flatMap Styled.text = text := by
  by_cases empty : text.isEmpty
  · rw [line, if_pos empty, List.isEmpty_iff.mp empty]
    rfl
  · rw [line, if_neg empty]
    simp

theorem tree_chars (request : Request) : (tree request).chars = request.code := by
  have rows : (request.code.lines.map (line request.stem request.themes)).map (fun pieces => pieces.flatMap Styled.text) =
      request.code.lines := by
    rw [List.map_map]
    exact (List.map_congr_left fun text _ => line_text request.stem request.themes text).trans (List.map_id _)
  rw [tree, block_chars, rows, Text.unlines_lines]

section Fits

variable {name value : Text → Prop} {stem : Text} {themes : ThemePair} (named : ∀ tag ∈ names, name tag)
  (valued : ∀ chars ∈ values, value chars) (pieces : value (styleText (piece stem themes)))

include named valued pieces

theorem line_fits {text : Text} (fits : value text) :
    (Node.element (lineElement (line stem themes text))).Fits name value := by
  have outer : Properties.Fits name value [("class".toList, .str lineClass)] := by
    simp only [Properties.Fits, List.forall_mem_singleton]
    exact ⟨named _ (by decide), valued _ (by decide)⟩
  refine ⟨named _ (by decide), outer, ?_⟩
  by_cases empty : text.isEmpty
  · rw [line, if_pos empty]
    exact trivial
  · rw [line, if_neg empty]
    have inner : Properties.Fits name value [("style".toList, .str (styleText (piece stem themes)))] := by
      simp only [Properties.Fits, List.forall_mem_singleton]
      exact ⟨named _ (by decide), pieces⟩
    have untouched : ∀ next ∈ ([] : List Node).head?, next.isText = false := by simp
    exact ⟨⟨named _ (by decide), inner, fits, fun _ => untouched, trivial⟩, fun _ => untouched, trivial⟩

theorem lines_fit {lines : List Text} (fits : ∀ line ∈ lines, value line) :
    (Node.element (codeElement (lines.map (line stem themes)))).Fits name value := by
  refine ⟨named _ (by decide), fun entry held => absurd held List.not_mem_nil, ?_⟩
  induction lines with
  | nil => trivial
  | cons first rest ih =>
      obtain ⟨here, later⟩ := List.forall_mem_cons.mp fits
      have row := line_fits named valued pieces here
      cases rest with
      | nil => exact ⟨row, fun touching => (nomatch touching), trivial⟩
      | cons second rest =>
          have broken : value ['\n'] := valued _ (by decide)
          refine ⟨row, fun touching => (nomatch touching), broken, fun _ next head => ?_, ih later⟩
          cases rest with
          | nil =>
              cases head
              rfl
          | cons third rest =>
              cases head
              rfl

theorem tree_fits {code : Text} (around : value (styleText (block stem themes))) (fits : ∀ line ∈ code.lines, value line)
    (language : Language) : (Node.element (tree ⟨code, language, themes, stem⟩)).Fits name value := by
  have properties : Properties.Fits name value [("class".toList, .str "fake".toList),
      ("style".toList, .str (styleText (block stem themes))), ("tabindex".toList, .str "0".toList)] := by
    simp only [Properties.Fits, List.forall_mem_cons]
    exact ⟨⟨named _ (by decide), valued _ (by decide)⟩, ⟨named _ (by decide), around⟩,
      ⟨named _ (by decide), valued _ (by decide)⟩, by simp⟩
  refine ⟨named _ (by decide), properties, lines_fit named valued pieces fits, fun _ next head => ?_, trivial⟩
  cases head

end Fits

theorem tree_lacks {mark stem : Text} {themes : ThemePair} (fence : mark.FenceMark)
    (dark : Lacks (stem ++ themes.dark) mark) (light : Lacks (stem ++ themes.light) mark) {code : Text}
    (lacks : code.Lacks mark) (language : Language) : (Node.element (tree ⟨code, language, themes, stem⟩)).Lacks mark := by
  have quiet : (∀ tag ∈ names, tag.Quiet) ∧ ∀ chars ∈ values, chars.Quiet := by decide
  refine tree_fits quiet.1 (fun chars held => Text.quiet_lacks fence (quiet.2 chars held)) ?_ ?_ ?_ language
  · exact style_lacks fence dark light (piece_fits stem themes)
  · exact style_lacks fence dark light (block_fits stem themes)
  · intro line member
    refine Text.lacks_part lacks ?_
    simpa only [Text.unlines_lines] using Text.line_inside member

theorem line_texts {code line : Text} (member : line ∈ code.lines) (written : line ≠ []) (language : Language)
    (themes : ThemePair) (stem : Text) : line ∈ (Node.element (tree ⟨code, language, themes, stem⟩)).texts := by
  have pieces : line ∈ (Node.element (lineElement (Plain.line stem themes line))).texts := by
    rw [Plain.line, if_neg (by simpa using written)]
    exact List.mem_cons_self
  have rows (lines : List Text) (held : line ∈ lines) :
      line ∈ (Node.element (codeElement (lines.map (Plain.line stem themes)))).texts := by
    induction lines with
    | nil => cases held
    | cons first rest ih =>
        have here (same : line = first) : line ∈ (Node.element (lineElement (Plain.line stem themes first))).texts :=
          same ▸ pieces
        cases rest with
        | nil => exact List.mem_append_left _ (here (List.mem_singleton.mp held))
        | cons second rest =>
            rcases List.mem_cons.mp held with same | later
            · exact List.mem_append_left _ (here same)
            · exact List.mem_append_right _ (List.mem_cons_of_mem _ (ih later))
  exact List.mem_append_left _ (rows code.lines member)

end Plain

namespace Highlighter

theorem markup_lacks {highlighter : Highlighter} {mark : Text} (fence : mark.FenceMark) (unstyled : highlighter.Unstyled mark)
    {code : Text} (lacks : code.Lacks mark) (language : Language) (lines : List LineRange) :
    (highlighter.markup code language lines).Lacks mark := by
  refine escape_template_lacks fence ?_
  exact node_html_lacks fence _ (number_lines_fits (by decide) (Plain.tree_lacks fence unstyled.1 unstyled.2 lacks language) lines)

variable {highlighter : Highlighter} (plain : highlighter.engine = Engine.plain)

include plain

theorem plain_fragment (earlier : Nat) (raw : Text) (language : Language) :
    highlighter.fragment earlier raw language =
      .ok (highlighter.wrap (highlighter.markup (code raw) language (Directive.parse raw).lines)) := by
  rw [fragment_settled, plain]
  rfl

theorem plain_made (raw : Text) (language : Language) :
    ∃ html, ∀ earlier, highlighter.fragment earlier raw language = .ok html :=
  ⟨_, fun earlier => plain_fragment plain earlier raw language⟩

theorem plain_lacks {mark : Text} (fence : mark.FenceMark) (unmarked : highlighter.Unmarked mark) {earlier : Nat}
    {raw html : Text} {language : Language} (lacks : (code raw).Lacks mark)
    (made : highlighter.fragment earlier raw language = .ok html) : html.Lacks mark := by
  rw [plain_fragment plain, Except.ok.injEq] at made
  rw [← made, wrap_lacks fence]
  exact ⟨unmarked.1, markup_lacks fence unmarked.2 lacks language _⟩

theorem plain_stands {mark : Text} (fence : mark.FenceMark) (tilde : ∀ c ∈ mark, c = '~' ∨ c.isLower = true) {earlier : Nat}
    {raw html : Text} {language : Language} (made : highlighter.fragment earlier raw language = .ok html)
    (lacks : html.Lacks mark) : (code raw).Lacks mark := by
  rw [plain_fragment plain, Except.ok.injEq] at made
  rw [← made, wrap_lacks fence] at lacks
  rw [← Text.unlines_lines (code raw)]
  refine Text.unlines_lacks (Text.fence_mark_whole fence) (Text.fence_mark_nonempty fence) fun line member found => ?_
  have written : line ≠ [] := by
    rintro rfl
    exact Text.fence_mark_nonempty fence (List.infix_nil.mp found)
  have shown := Plain.line_texts member written language highlighter.themes highlighter.stem
  rw [← number_lines_texts _ (Directive.parse raw).lines] at shown
  refine lacks.2 (escape_template_stands tilde (List.IsInfix.trans ?_ (texts_inside _ shown)))
  exact Text.flatMap_stands (fun c held => markup_keeps (fence.2 c held)) found

end Highlighter

theorem default_unmarked (tag : Language) :
    (({} : Config).highlighter Engine.plain).Unmarked (Family.tilde.opener tag) := by
  have quiet : Text.Quiet "code-wrapper".toList ∧ Text.Quiet (defaultStem ++ "vitesse-black".toList) ∧
      Text.Quiet (defaultStem ++ "rose-pine-dawn".toList) := by decide
  have fence := Family.tilde.opener_fence_mark tag
  exact ⟨Text.quiet_lacks fence quiet.1, Text.quiet_lacks fence quiet.2.1, Text.quiet_lacks fence quiet.2.2⟩

end CodeFence
