import CodeFence.Markup.Html
import CodeFence.Markup.Numbered
import CodeFence.Proofs.Fence.Mark
import CodeFence.Proofs.Text.Decimal

set_option autoImplicit false

namespace CodeFence

open Text (Lacks Quiet Divider FenceMark)

theorem markup_entity (c : Char) : Entity.markup c = [c] ∨ (Entity.markup c).Divider := by
  unfold Entity.markup
  split <;> first | exact Or.inl rfl | exact Or.inr (by decide)

theorem template_entity (c : Char) : Entity.template c = [c] ∨ (Entity.template c).Divider := by
  unfold Entity.template
  split <;> first | exact Or.inl rfl | exact Or.inr (by decide)

theorem markup_keeps {c : Char} (plain : isFence c = true ∨ c.isLower = true) : Entity.markup c = [c] := by
  unfold Entity.markup
  split <;> first | rfl | (revert plain; decide)

theorem template_keeps {c : Char} (plain : c = '~' ∨ c.isLower = true) : Entity.template c = [c] := by
  unfold Entity.template
  split <;> first | rfl | (revert plain; decide)

theorem escape_markup_lacks {text mark : Text} (fence : mark.FenceMark) :
    text.escapeMarkup.Lacks mark ↔ text.Lacks mark :=
  Text.flatMap_lacks_iff (fun c held => markup_keeps (fence.2 c held))
    fun c => (markup_entity c).imp id (Text.divider_breaks fence)

theorem escape_template_lacks {html mark : Text} (fence : mark.FenceMark) (lacks : html.Lacks mark) :
    html.escapeTemplate.Lacks mark :=
  Text.flatMap_lacks lacks fun c => (template_entity c).imp id (Text.divider_breaks fence)

theorem decimal_quiet (n : Nat) : (decimal n).Quiet := by
  intro c held
  have digit := decimal_digits held
  rw [Char.isDigit, Bool.and_eq_true, decide_eq_true_eq, decide_eq_true_eq] at digit
  rw [isFence, Bool.or_eq_false_iff, beq_eq_false_iff_ne, beq_eq_false_iff_ne]
  constructor <;> rintro rfl <;> revert digit <;> decide

def Property.Fits (value : Text → Prop) : Property → Prop
  | .str chars => value chars
  | _ => True

def Properties.Fits (name value : Text → Prop) (properties : Properties) : Prop :=
  ∀ entry ∈ properties, name entry.1 ∧ entry.2.Fits value

def Node.isText : Node → Bool
  | .text _ => true
  | .element _ => false

mutual
-- What holds of the tags and names, and of the texts and values; no two texts touch.
def Node.Fits (name value : Text → Prop) : Node → Prop
  | .text chars => value chars
  | .element ⟨tag, properties, children⟩ => name tag ∧ properties.Fits name value ∧ Node.AllFit name value children

def Node.AllFit (name value : Text → Prop) : List Node → Prop
  | [] => True
  | node :: rest =>
      node.Fits name value ∧ (node.isText = true → ∀ next ∈ rest.head?, next.isText = false) ∧ Node.AllFit name value rest
end

abbrev Node.Lacks (mark : Text) (node : Node) : Prop :=
  node.Fits Text.Quiet (Text.Lacks · mark)

section Html

variable {mark : Text}

theorem properties_html_lacks (fence : mark.FenceMark) {properties : Properties} (lacks : properties.Fits Text.Quiet (Text.Lacks · mark)) :
    properties.html.Lacks mark := by
  induction properties with
  | nil => exact Text.lacks_nil (Text.fence_mark_nonempty fence)
  | cons entry properties ih =>
      obtain ⟨⟨named, valued⟩, later⟩ := List.forall_mem_cons.mp lacks
      have name : Divider (' ' :: entry.1) := @Text.divider_append [' '] entry.1 (by decide) named
      have rest := ih later
      have split : Properties.html (entry :: properties) =
          (' ' :: entry.1) ++ (entry.2.html ++ Properties.html properties) := by
        simp [Properties.html]
      rw [split, Text.lacks_broken_front (Text.divider_breaks fence name)]
      cases value : entry.2 with
      | str chars =>
          rw [value] at valued
          rw [Property.html, List.append_assoc, List.append_assoc,
            Text.lacks_broken_front (Text.divider_breaks fence (by decide)),
            Text.lacks_broken (Text.divider_breaks fence (by decide))]
          exact ⟨(escape_markup_lacks fence).mpr valued, rest⟩
      | int n =>
          have quiet : Divider ("=\"".toList ++ decimal n ++ "\"".toList) :=
            Text.divider_append (Text.divider_append (by decide) (decimal_quiet n)) (by decide)
          rw [Property.html, Text.lacks_broken_front (Text.divider_breaks fence quiet)]
          exact rest
      | flag => exact rest

theorem start_divider {tag : Text} (quiet : tag.Quiet) : Divider ("<".toList ++ tag) :=
  Text.divider_append (by decide) quiet

theorem end_divider {tag : Text} (quiet : tag.Quiet) : (Element.endTag tag).Divider :=
  Text.divider_append (Text.divider_append (by decide) quiet) (by decide)

theorem start_tag_lacks (fence : mark.FenceMark) {tag : Text} {properties : Properties} (quiet : tag.Quiet)
    (lacks : properties.Fits Text.Quiet (Text.Lacks · mark)) (behind : Text) : Lacks (Element.startTag tag properties ++ behind) mark ↔ behind.Lacks mark := by
  rw [Element.startTag, List.append_assoc, List.append_assoc,
    Text.lacks_broken_front (Text.divider_breaks fence (start_divider quiet)),
    Text.lacks_broken (Text.divider_breaks fence (by decide))]
  exact and_iff_right (properties_html_lacks fence lacks)

mutual
theorem node_html_lacks (fence : mark.FenceMark) : (node : Node) → node.Lacks mark → node.html.Lacks mark
  | .text _, lacks => (escape_markup_lacks fence).mpr lacks
  | .element ⟨tag, properties, children⟩, lacks => by
      obtain ⟨quiet, values, inner⟩ := lacks
      rw [Node.html, List.append_assoc, start_tag_lacks fence quiet values,
        Text.lacks_broken_end (Text.divider_breaks fence (end_divider quiet))]
      exact all_html_lacks fence children inner

theorem all_html_lacks (fence : mark.FenceMark) : (nodes : List Node) → Node.AllFit Text.Quiet (Text.Lacks · mark) nodes →
    (Node.allHtml nodes).Lacks mark
  | [], _ => Text.lacks_nil (Text.fence_mark_nonempty fence)
  | .element ⟨tag, properties, children⟩ :: rest, lacks => by
      obtain ⟨⟨quiet, values, inner⟩, -, later⟩ := lacks
      rw [Node.allHtml, Node.html, List.append_assoc, List.append_assoc, start_tag_lacks fence quiet values,
        Text.lacks_broken (Text.divider_breaks fence (end_divider quiet))]
      exact ⟨all_html_lacks fence children inner, all_html_lacks fence rest later⟩
  | [.text chars], lacks => by
      rw [Node.allHtml, Node.allHtml, List.append_nil]
      exact (escape_markup_lacks fence).mpr lacks.1
  | .text chars :: .element ⟨tag, properties, children⟩ :: rest, lacks => by
      have behind := all_html_lacks fence (.element ⟨tag, properties, children⟩ :: rest) lacks.2.2
      obtain ⟨quiet, -, -⟩ := lacks.2.2.1
      rw [Node.allHtml, Node.html, Element.startTag] at behind
      rw [Node.allHtml, Node.allHtml, Node.html, Node.html, Element.startTag]
      simp only [List.append_assoc] at behind ⊢
      rw [← List.append_assoc "<".toList] at behind ⊢
      rw [Text.lacks_broken_front (Text.divider_breaks fence (start_divider quiet))] at behind
      rw [Text.lacks_broken (Text.divider_breaks fence (start_divider quiet))]
      exact ⟨(escape_markup_lacks fence).mpr lacks.1, behind⟩
  | .text _ :: .text _ :: _, lacks => by
      have touching := lacks.2.1 rfl _ rfl
      cases touching
end

end Html

section Numbering

variable {name value : Text → Prop}

theorem properties_set_fits {properties : Properties} {key : Text} {set : Property} (fits : properties.Fits name value)
    (named : name key) (valued : set.Fits value) : (properties.set key set).Fits name value := by
  induction properties with
  | nil => simpa [Properties.set, Properties.Fits] using And.intro named valued
  | cons entry properties ih =>
      obtain ⟨first, later⟩ := List.forall_mem_cons.mp fits
      unfold Properties.set
      split
      · exact List.forall_mem_cons.mpr ⟨⟨first.1, valued⟩, later⟩
      · exact List.forall_mem_cons.mpr ⟨first, ih later⟩

theorem properties_erase_fits {properties : Properties} (fits : properties.Fits name value) (key : Text) :
    (properties.erase key).Fits name value := by
  induction properties with
  | nil => exact fits
  | cons entry properties ih =>
      obtain ⟨first, later⟩ := List.forall_mem_cons.mp fits
      unfold Properties.erase
      split
      · exact later
      · exact List.forall_mem_cons.mpr ⟨first, ih later⟩

theorem number_line_fits (numbered : name lineNumber ∧ name lineHighlighted) (ranges : List LineRange) (line : Nat) (tag : Text)
    {properties : Properties} (fits : properties.Fits name value) :
    (numberLine ranges line tag properties).1.Fits name value := by
  unfold numberLine
  split
  · have counted : ((properties.erase "class".toList).set lineNumber (.int line)).Fits name value :=
      properties_set_fits (properties_erase_fits fits _) numbered.1 trivial
    unfold Properties.number
    split
    · exact properties_set_fits counted numbered.2 trivial
    · exact counted
  · exact fits

theorem annotate_isText {σ : Type} (step : σ → Text → Properties → Properties × σ) (state : σ) (node : Node) :
    (node.annotate step state).1.isText = node.isText := by
  cases node with
  | text _ => rfl
  | element root => cases root; rfl

theorem annotate_all_head {σ : Type} (step : σ → Text → Properties → Properties × σ) (state : σ) {nodes : List Node}
    (texts : ∀ next ∈ nodes.head?, next.isText = false) :
    ∀ next ∈ (Node.annotateAll step state nodes).1.head?, next.isText = false := by
  cases nodes with
  | nil => exact texts
  | cons node rest =>
      rintro next ⟨⟩
      rw [annotate_isText]
      exact texts node rfl

mutual
theorem annotate_fits {σ : Type} {step : σ → Text → Properties → Properties × σ}
    (keeps : ∀ state tag (properties : Properties), properties.Fits name value →
      (step state tag properties).1.Fits name value)
    (state : σ) : (node : Node) → node.Fits name value → (node.annotate step state).1.Fits name value
  | .text _, fits => fits
  | .element ⟨tag, properties, children⟩, fits =>
      ⟨fits.1, keeps state tag properties fits.2.1, annotate_all_fits keeps _ children fits.2.2⟩

theorem annotate_all_fits {σ : Type} {step : σ → Text → Properties → Properties × σ}
    (keeps : ∀ state tag (properties : Properties), properties.Fits name value →
      (step state tag properties).1.Fits name value)
    (state : σ) : (nodes : List Node) → Node.AllFit name value nodes →
      Node.AllFit name value (Node.annotateAll step state nodes).1
  | [], _ => trivial
  | node :: rest, fits =>
      ⟨annotate_fits keeps state node fits.1,
        fun texts => annotate_all_head step _ (fits.2.1 ((annotate_isText step state node).symm.trans texts)),
        annotate_all_fits keeps _ rest fits.2.2⟩
end

theorem number_lines_fits (numbered : name lineNumber ∧ name lineHighlighted) {root : Element}
    (fits : (Node.element root).Fits name value) (ranges : List LineRange) :
    (Node.element (root.numberLines ranges)).Fits name value := by
  obtain ⟨tag, properties, children⟩ := root
  refine ⟨fits.1, properties_erase_fits (properties_erase_fits fits.2.1 _) _, ?_⟩
  exact annotate_all_fits (fun line tag _ => number_line_fits numbered ranges line tag) _ children fits.2.2

end Numbering

mutual
def Node.texts : Node → List Text
  | .text chars => [chars]
  | .element ⟨_, _, children⟩ => Node.allTexts children

def Node.allTexts : List Node → List Text
  | [] => []
  | node :: rest => node.texts ++ Node.allTexts rest
end

mutual
theorem texts_inside {chars : Text} : (node : Node) → chars ∈ node.texts → chars.escapeMarkup <:+: node.html
  | .text other, held => by
      rw [Node.texts, List.mem_singleton] at held
      rw [held, Node.html]
  | .element ⟨tag, properties, children⟩, held => by
      rw [Node.html]
      exact (all_texts_inside children held).trans ⟨_, _, rfl⟩

theorem all_texts_inside {chars : Text} : (nodes : List Node) → chars ∈ Node.allTexts nodes →
    chars.escapeMarkup <:+: Node.allHtml nodes
  | [], held => absurd held List.not_mem_nil
  | node :: rest, held => by
      rw [Node.allHtml]
      rcases List.mem_append.mp held with here | later
      · exact (texts_inside node here).trans (List.prefix_append _ _).isInfix
      · exact (all_texts_inside rest later).trans (List.suffix_append _ _).isInfix
end

mutual
theorem annotate_texts {σ : Type} (step : σ → Text → Properties → Properties × σ) (state : σ) :
    (node : Node) → (node.annotate step state).1.texts = node.texts
  | .text _ => rfl
  | .element ⟨_, _, children⟩ => annotate_all_texts step _ children

theorem annotate_all_texts {σ : Type} (step : σ → Text → Properties → Properties × σ) (state : σ) :
    (nodes : List Node) → Node.allTexts (Node.annotateAll step state nodes).1 = Node.allTexts nodes
  | [] => rfl
  | node :: rest => by
      rw [Node.annotateAll, Node.allTexts, Node.allTexts, annotate_texts step state node, annotate_all_texts step _ rest]
end

theorem number_lines_texts (root : Element) (ranges : List LineRange) :
    (Node.element (root.numberLines ranges)).texts = (Node.element root).texts := by
  obtain ⟨tag, properties, children⟩ := root
  exact annotate_all_texts (numberLine ranges) 1 children

theorem escape_template_stands {mark html : Text} (kept : ∀ c ∈ mark, c = '~' ∨ c.isLower = true) (stands : mark <:+: html) :
    mark <:+: html.escapeTemplate :=
  Text.flatMap_stands (fun c held => template_keeps (kept c held)) stands

end CodeFence
