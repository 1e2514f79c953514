import CodeFence.Proofs.Markup.Marks
import CodeFence.Proofs.Text.Occurrences

set_option autoImplicit false

namespace CodeFence

mutual
def Node.Labelled (name value : Text → Prop) : Node → Prop
  | .text _ => True
  | .element ⟨tag, properties, children⟩ => name tag ∧ properties.Fits name value ∧ Node.AllLabelled name value children

def Node.AllLabelled (name value : Text → Prop) : List Node → Prop
  | [] => True
  | node :: rest => node.Labelled name value ∧ Node.AllLabelled name value rest
end

section Labelled

variable {name value : Text → Prop}

theorem all_labelled {nodes : List Node} (each : ∀ node ∈ nodes, node.Labelled name value) :
    Node.AllLabelled name value nodes := by
  induction nodes with
  | nil => trivial
  | cons node rest ih => exact ⟨each node List.mem_cons_self, ih fun other held => each other (List.mem_cons_of_mem node held)⟩

theorem properties_fits_imp {wider broader : Text → Prop} (names : ∀ chars, name chars → wider chars)
    (values : ∀ chars, value chars → broader chars) {properties : Properties} (fits : properties.Fits name value) :
    properties.Fits wider broader := by
  intro entry held
  obtain ⟨named, valued⟩ := fits entry held
  refine ⟨names _ named, ?_⟩
  cases written : entry.2 with
  | str chars =>
      rw [written] at valued
      exact values chars valued
  | int n => trivial
  | flag => trivial

mutual
theorem labelled_imp {wider broader : Text → Prop} (names : ∀ chars, name chars → wider chars)
    (values : ∀ chars, value chars → broader chars) :
    (node : Node) → node.Labelled name value → node.Labelled wider broader
  | .text _, _ => trivial
  | .element ⟨_, _, children⟩, labelled =>
      ⟨names _ labelled.1, properties_fits_imp names values labelled.2.1, all_labelled_imp names values children labelled.2.2⟩

theorem all_labelled_imp {wider broader : Text → Prop} (names : ∀ chars, name chars → wider chars)
    (values : ∀ chars, value chars → broader chars) :
    (nodes : List Node) → Node.AllLabelled name value nodes → Node.AllLabelled wider broader nodes
  | [], _ => trivial
  | node :: rest, labelled => ⟨labelled_imp names values node labelled.1, all_labelled_imp names values rest labelled.2⟩
end

mutual
theorem fits_labelled : (node : Node) → node.Fits name value → node.Labelled name value
  | .text _, _ => trivial
  | .element ⟨_, _, children⟩, fits => ⟨fits.1, fits.2.1, all_fit_labelled children fits.2.2⟩

theorem all_fit_labelled : (nodes : List Node) → Node.AllFit name value nodes → Node.AllLabelled name value nodes
  | [], _ => trivial
  | node :: rest, fits => ⟨fits_labelled node fits.1, all_fit_labelled rest fits.2.2⟩
end

mutual
theorem annotate_labelled {σ : Type} {step : σ → Text → Properties → Properties × σ}
    (keeps : ∀ state tag (properties : Properties), properties.Fits name value → (step state tag properties).1.Fits name value)
    (state : σ) : (node : Node) → node.Labelled name value → (node.annotate step state).1.Labelled name value
  | .text _, _ => trivial
  | .element ⟨tag, properties, children⟩, labelled =>
      ⟨labelled.1, keeps state tag properties labelled.2.1, annotate_all_labelled keeps _ children labelled.2.2⟩

theorem annotate_all_labelled {σ : Type} {step : σ → Text → Properties → Properties × σ}
    (keeps : ∀ state tag (properties : Properties), properties.Fits name value → (step state tag properties).1.Fits name value)
    (state : σ) : (nodes : List Node) → Node.AllLabelled name value nodes →
      Node.AllLabelled name value (Node.annotateAll step state nodes).1
  | [], _ => trivial
  | node :: rest, labelled =>
      ⟨annotate_labelled keeps state node labelled.1, annotate_all_labelled keeps _ rest labelled.2⟩
end

theorem number_lines_labelled (numbered : name lineNumber ∧ name lineHighlighted) {root : Element}
    (labelled : (Node.element root).Labelled name value) (ranges : List LineRange) :
    (Node.element (root.numberLines ranges)).Labelled name value := by
  obtain ⟨tag, properties, children⟩ := root
  obtain ⟨named, valued, inner⟩ := labelled
  refine ⟨named, properties_erase_fits (properties_erase_fits valued _) _, ?_⟩
  exact annotate_all_labelled (fun line tag _ => number_line_fits numbered ranges line tag) _ children inner

end Labelled

theorem escape_markup_tildes (text : Text) : text.escapeMarkup.count '~' = text.count '~' := by
  apply Text.flatMap_count
  intro c
  unfold Entity.markup
  split <;> rfl

theorem escape_template_tildes (html : Text) : html.escapeTemplate.count '~' = html.count '~' := by
  apply Text.flatMap_count
  intro c
  unfold Entity.template
  split <;> rfl

theorem property_html_plain {property : Property} (plain : property.Fits ('~' ∉ ·)) : '~' ∉ property.html := by
  cases property with
  | str chars =>
      have escaped : '~' ∉ chars.escapeMarkup := by
        rw [← List.count_eq_zero, escape_markup_tildes, List.count_eq_zero]
        exact plain
      simp [Property.html, escaped]
  | int n =>
      have digits : '~' ∉ decimal n := by
        intro held
        have quiet := decimal_quiet n '~' held
        revert quiet
        decide
      simp [Property.html, digits]
  | flag => simp [Property.html]

theorem properties_html_plain {properties : Properties} (plain : properties.Fits ('~' ∉ ·) ('~' ∉ ·)) :
    '~' ∉ properties.html := by
  intro held
  obtain ⟨entry, member, inside⟩ := List.mem_flatMap.mp held
  obtain ⟨named, valued⟩ := plain entry member
  have bare := property_html_plain valued
  simp [named, bare] at inside

mutual
theorem node_html_tildes : (node : Node) → node.Labelled ('~' ∉ ·) ('~' ∉ ·) → node.html.count '~' = node.chars.count '~'
  | .text chars, _ => escape_markup_tildes chars
  | .element ⟨tag, properties, children⟩, labelled => by
      obtain ⟨named, valued, inner⟩ := labelled
      have bare := properties_html_plain valued
      have start : (Element.startTag tag properties).count '~' = 0 := by
        rw [List.count_eq_zero]
        simp [Element.startTag, named, bare]
      have stop : (Element.endTag tag).count '~' = 0 := by
        rw [List.count_eq_zero]
        simp [Element.endTag, named]
      rw [Node.html, List.count_append, List.count_append, start, stop, all_html_tildes children inner, Node.chars]
      omega

theorem all_html_tildes : (nodes : List Node) → Node.AllLabelled ('~' ∉ ·) ('~' ∉ ·) nodes →
    (Node.allHtml nodes).count '~' = (Node.allChars nodes).count '~'
  | [], _ => rfl
  | node :: rest, labelled => by
      rw [Node.allHtml, Node.allChars, List.count_append, List.count_append, node_html_tildes node labelled.1,
        all_html_tildes rest labelled.2]
end

end CodeFence
