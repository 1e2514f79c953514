import CodeFence.Proofs.Engine.Plain

set_option autoImplicit false

namespace CodeFence

-- The second tree is the first with `more` behind a text that is `chars`.
inductive Node.Extended (chars more : Text) : Node → Node → Prop
  | text : Node.Extended chars more (.text chars) (.text (chars ++ more))
  | element {tag : Text} {properties : Properties} {node longer : Node} (before after : List Node) :
      Node.Extended chars more node longer →
        Node.Extended chars more (.element ⟨tag, properties, before ++ node :: after⟩)
          (.element ⟨tag, properties, before ++ longer :: after⟩)

variable {chars more : Text}

theorem all_html_append (before after : List Node) : Node.allHtml (before ++ after) = Node.allHtml before ++ Node.allHtml after := by
  induction before with
  | nil => rfl
  | cons node before ih => rw [List.cons_append, Node.allHtml, ih, Node.allHtml, List.append_assoc]

theorem extended_html {node longer : Node} (extended : node.Extended chars more longer) :
    ∃ front back, node.html = front ++ chars.escapeMarkup ++ back ∧
      longer.html = front ++ chars.escapeMarkup ++ more.escapeMarkup ++ back := by
  induction extended with
  | text =>
      refine ⟨[], [], by simp [Node.html], ?_⟩
      simp [Node.html, Text.escapeMarkup]
  | @element tag properties node longer before after _ ih =>
      obtain ⟨front, back, short, long⟩ := ih
      refine ⟨Element.startTag tag properties ++ Node.allHtml before ++ front,
        back ++ Node.allHtml after ++ Element.endTag tag, ?_, ?_⟩
      · rw [Node.html, all_html_append, Node.allHtml, short]
        simp only [List.append_assoc]
      · rw [Node.html, all_html_append, Node.allHtml, long]
        simp only [List.append_assoc]

section Annotate

variable {σ : Type} (step : σ → Text → Properties → Properties × σ)

theorem annotate_all_append (state : σ) (before after : List Node) :
    Node.annotateAll step state (before ++ after) =
      ((Node.annotateAll step state before).1 ++ (Node.annotateAll step (Node.annotateAll step state before).2 after).1,
        (Node.annotateAll step (Node.annotateAll step state before).2 after).2) := by
  induction before generalizing state with
  | nil => rfl
  | cons node before ih => simp only [List.cons_append, Node.annotateAll, ih]

theorem extended_annotate {node longer : Node} (extended : node.Extended chars more longer) (state : σ) :
    (node.annotate step state).1.Extended chars more (longer.annotate step state).1 ∧
      (node.annotate step state).2 = (longer.annotate step state).2 := by
  induction extended generalizing state with
  | text => exact ⟨.text, rfl⟩
  | @element tag properties node longer before after _ ih =>
      obtain ⟨deeper, same⟩ := ih (Node.annotateAll step (step state tag properties).2 before).2
      simp only [Node.annotate, annotate_all_append, Node.annotateAll, same]
      exact ⟨.element _ _ deeper, trivial⟩

end Annotate

theorem extended_numbered {tag : Text} {properties : Properties} {children others : List Node}
    (extended : (Node.element ⟨tag, properties, children⟩).Extended chars more (.element ⟨tag, properties, others⟩))
    (ranges : List LineRange) :
    (Node.element (Element.numberLines ranges ⟨tag, properties, children⟩)).Extended chars more
      (.element (Element.numberLines ranges ⟨tag, properties, others⟩)) := by
  cases extended with
  | element before after deeper =>
      obtain ⟨inner, same⟩ := extended_annotate (numberLine ranges) deeper (Node.annotateAll (numberLine ranges) 1 before).2
      simp only [Element.numberLines, Element.eraseProperty, Element.annotate, annotate_all_append, Node.annotateAll, same]
      exact .element _ _ inner

theorem intersperse_last {α : Type} (sep : α) (init : List α) : ∃ front, ∀ last, (init ++ [last]).intersperse sep = front ++ [last] := by
  induction init with
  | nil => exact ⟨[], fun last => rfl⟩
  | cons first init ih =>
      obtain ⟨front, rest⟩ := ih
      refine ⟨first :: sep :: front, fun last => ?_⟩
      obtain ⟨second, tail, shape⟩ := List.exists_cons_of_ne_nil (List.append_ne_nil_of_right_ne_nil init (List.cons_ne_nil last []))
      rw [List.cons_append, shape, List.intersperse_cons_cons, ← shape, rest last]
      rfl

namespace Plain

theorem tree_extended {d : Char} (visible : d ≠ '\n') (whole : '\n' ∉ more) (code : Text) (language : Language)
    (themes : ThemePair) (stem : Text) : ∃ front, Node.Extended (front ++ [d]) more
      (.element (tree ⟨code ++ [d], language, themes, stem⟩)) (.element (tree ⟨code ++ d :: more, language, themes, stem⟩)) := by
  obtain ⟨init, longer⟩ := Text.lines_last code
  generalize code.lastLine = last at longer
  have short := longer [d] (by simpa using visible.symm)
  have long := longer (d :: more) (by simpa using ⟨visible.symm, whole⟩)
  have written (text : Text) (some : text ≠ []) : line stem themes text = [⟨text, styleText (piece stem themes)⟩] := by
    rw [line, if_neg (by simpa using some)]
  obtain ⟨front, rows⟩ := intersperse_last (Node.text ['\n']) ((init.map (line stem themes)).map fun pieces => Node.element (lineElement pieces))
  have code (text : Text) (some : text ≠ []) : codeElement ((init ++ [text]).map (line stem themes)) =
      ⟨"code".toList, [], front ++ [.element (lineElement [⟨text, styleText (piece stem themes)⟩])]⟩ := by
    rw [codeElement, List.map_append, List.map_append, List.map_singleton, List.map_singleton, rows, written text some]
  refine ⟨last, ?_⟩
  simp only [tree, blockElement, short, long]
  rw [code _ (by simp), code _ (by simp)]
  refine .element [] [] (.element front [] (.element [] [] (.element [] [] ?_)))
  have shape : last ++ d :: more = (last ++ [d]) ++ more := by simp
  rw [shape]
  exact .text

end Plain

theorem Entity.markup_stopped {c : Char} (seen : isBlank c = false) (outside : c ∉ Family.tilde.token) :
    Family.tilde.Stopped (markup c).escapeTemplate := by
  have plain : Family.tilde.Stopped (Text.escapeTemplate [c]) := by
    rw [Text.escapeTemplate, List.flatMap_singleton]
    unfold template
    split
    · exact ⟨"&lbrace".toList, ';', rfl, by decide, by decide⟩
    · exact ⟨"&rbrace".toList, ';', rfl, by decide, by decide⟩
    · exact ⟨"&grave".toList, ';', rfl, by decide, by decide⟩
    · exact ⟨[], c, rfl, seen, outside⟩
  unfold markup
  split
  · exact ⟨"&gt".toList, ';', rfl, by decide, by decide⟩
  · exact ⟨"&lt".toList, ';', rfl, by decide, by decide⟩
  · exact ⟨"&amp".toList, ';', rfl, by decide, by decide⟩
  · exact ⟨"&#39".toList, ';', rfl, by decide, by decide⟩
  · exact ⟨"&quot".toList, ';', rfl, by decide, by decide⟩
  · exact plain

theorem Highlighter.markup_extended {highlighter : Highlighter} (unstyled : highlighter.Unstyled Family.tilde.token)
    {code : Text} (stopped : Family.tilde.Stopped code) (lacks : code.Lacks Family.tilde.token) (language : Language)
    (lines : List LineRange) : ∃ front back, highlighter.markup (code ++ Family.tilde.token) language lines =
      front ++ Family.tilde.token ++ back ∧ Family.tilde.Stopped front ∧ front.Lacks Family.tilde.token := by
  obtain ⟨init, c, rfl, seen, outside⟩ := stopped
  have visible : c ≠ '\n' := by
    rintro rfl
    exact absurd seen (by decide)
  have whole : '\n' ∉ Family.tilde.token := by decide
  obtain ⟨line, extended⟩ := Plain.tree_extended visible whole init language highlighter.themes highlighter.stem
  obtain ⟨before, behind, short, long⟩ := extended_html (extended_numbered extended lines)
  have kept : Family.tilde.token.escapeMarkup.escapeTemplate = Family.tilde.token := by decide
  have bare := markup_lacks Family.tilde.token_fence_mark unstyled lacks language lines
  have final : Text.escapeMarkup (line ++ [c]) = line.escapeMarkup ++ Entity.markup c := by
    rw [Text.escapeMarkup, List.flatMap_append, List.flatMap_singleton]
    rfl
  have shape : highlighter.markup (init ++ [c] ++ Family.tilde.token) language lines =
      (before ++ Text.escapeMarkup (line ++ [c])).escapeTemplate ++ Family.tilde.token ++ behind.escapeTemplate := by
    rw [List.append_assoc, List.singleton_append]
    exact (congrArg Text.escapeTemplate long).trans (by rw [Text.escapeTemplate_append, Text.escapeTemplate_append, kept])
  refine ⟨_, _, shape, ?_, Text.lacks_part bare ⟨[], behind.escapeTemplate, ?_⟩⟩
  · rw [final, ← List.append_assoc, Text.escapeTemplate_append]
    exact Family.stopped_behind _ (Entity.markup_stopped seen outside)
  · exact ((congrArg Text.escapeTemplate short).trans (Text.escapeTemplate_append _ _)).symm

end CodeFence
