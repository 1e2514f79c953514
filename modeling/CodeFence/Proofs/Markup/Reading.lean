import CodeFence.Markup.Reading
import CodeFence.Proofs.Markup.Labels
import CodeFence.Proofs.Text.Substitute

set_option autoImplicit false

namespace CodeFence

namespace Text

def Unbracketed (text : Text) : Prop :=
  '<' ∉ text ∧ '>' ∉ text

instance (text : Text) : Decidable text.Unbracketed :=
  inferInstanceAs (Decidable ('<' ∉ text ∧ '>' ∉ text))

-- One tag: a text in brackets with no bracket between them.
def Tag (text : Text) : Prop :=
  ∃ inner : Text, text = '<' :: inner ++ ['>'] ∧ inner.Unbracketed

theorem unbracketed_append {a b : Text} : Unbracketed (a ++ b) ↔ a.Unbracketed ∧ b.Unbracketed := by
  simp only [Unbracketed, List.mem_append, not_or]
  exact and_and_and_comm

theorem unbracketed_flatMap {α : Type} {write : α → Text} {items : List α} (each : ∀ item ∈ items, (write item).Unbracketed) :
    Unbracketed (items.flatMap write) := by
  constructor
  · intro held
    obtain ⟨item, member, inside⟩ := List.mem_flatMap.mp held
    exact (each item member).1 inside
  · intro held
    obtain ⟨item, member, inside⟩ := List.mem_flatMap.mp held
    exact (each item member).2 inside

theorem dropTags_plain {a : Text} (plain : '<' ∉ a) (rest : Text) : dropTags false (a ++ rest) = a ++ dropTags false rest := by
  induction a with
  | nil => rfl
  | cons c a ih =>
      obtain ⟨other, later⟩ := List.ne_and_not_mem_of_not_mem_cons plain
      rw [List.cons_append, dropTags, if_neg other.symm, ih later]
      rfl

theorem dropTags_inside {inner : Text} (plain : '>' ∉ inner) (rest : Text) :
    dropTags true (inner ++ '>' :: rest) = dropTags false rest := by
  induction inner with
  | nil => simp [dropTags]
  | cons c inner ih =>
      obtain ⟨other, later⟩ := List.ne_and_not_mem_of_not_mem_cons plain
      rw [List.cons_append, dropTags, decide_eq_true other.symm, ih later]

theorem dropTags_tag {tag : Text} (tagged : tag.Tag) (rest : Text) : dropTags false (tag ++ rest) = dropTags false rest := by
  obtain ⟨inner, rfl, plain⟩ := tagged
  rw [List.append_assoc, List.cons_append, dropTags, if_pos rfl]
  exact dropTags_inside plain.2 rest

theorem unescape_entity {row : Substitution} (member : row ∈ Entity.table) (rest : Text) :
    unescape (row.1 ++ rest) = row.2 ++ unescape rest := by
  simp only [Entity.table, List.mem_cons, List.not_mem_nil, or_false] at member
  rcases member with rfl | rfl | rfl | rfl | rfl | rfl | rfl | rfl
  · rfl
  · rfl
  · rfl
  · rfl
  · rfl
  · rfl
  · rfl
  · rfl

theorem unescape_plain {c : Char} (other : c ≠ '&') (rest : Text) : unescape (c :: rest) = c :: unescape rest := by
  have starts : ∀ row ∈ Entity.table, row.1.head? = some '&' := by decide
  exact substitute_unmarked starts other rest

theorem written_cases (c : Char) : ((Entity.markup c).escapeTemplate, [c]) ∈ Entity.table ∨
    c ≠ '&' ∧ (Entity.markup c).escapeTemplate = [c] := by
  have template (other : c ≠ '&') : (Text.escapeTemplate [c], [c]) ∈ Entity.table ∨ c ≠ '&' ∧ Text.escapeTemplate [c] = [c] := by
    rw [Text.escapeTemplate, List.flatMap_singleton]
    unfold Entity.template
    split
    · exact Or.inl (by decide)
    · exact Or.inl (by decide)
    · exact Or.inl (by decide)
    · exact Or.inr ⟨other, rfl⟩
  unfold Entity.markup
  split
  · exact Or.inl (by decide)
  · exact Or.inl (by decide)
  · exact Or.inl (by decide)
  · exact Or.inl (by decide)
  · exact Or.inl (by decide)
  · rename_i other _ _
    exact template other

theorem unescape_written (text : Text) : text.escapeMarkup.escapeTemplate.unescape = text := by
  induction text with
  | nil => rfl
  | cons c text ih =>
      have split : escapeMarkup (c :: text) = Entity.markup c ++ escapeMarkup text := List.flatMap_cons
      rw [split, escapeTemplate_append]
      rcases written_cases c with member | ⟨other, same⟩
      · rw [unescape_entity member, ih]
        rfl
      · rw [same, List.singleton_append, unescape_plain other, ih]

theorem escape_markup_unbracketed (text : Text) : text.escapeMarkup.Unbracketed := by
  refine unbracketed_flatMap fun c _ => ?_
  unfold Entity.markup
  split
  · decide
  · decide
  · decide
  · decide
  · decide
  · rename_i closing opening _ _ _
    simp only [Unbracketed, List.mem_singleton]
    exact ⟨fun same => opening same.symm, fun same => closing same.symm⟩

theorem escape_template_unbracketed {html : Text} (plain : html.Unbracketed) : html.escapeTemplate.Unbracketed := by
  refine unbracketed_flatMap fun c held => ?_
  unfold Entity.template
  split
  · decide
  · decide
  · decide
  · have opening : '<' ≠ c := fun same => plain.1 (same ▸ held)
    have closing : '>' ≠ c := fun same => plain.2 (same ▸ held)
    simpa [Unbracketed] using And.intro opening closing

end Text

theorem property_html_unbracketed (property : Property) : property.html.Unbracketed := by
  cases property with
  | str chars =>
      have escaped := Text.escape_markup_unbracketed chars
      exact Text.unbracketed_append.mpr ⟨Text.unbracketed_append.mpr ⟨by decide, escaped⟩, by decide⟩
  | int n =>
      have digits : (decimal n).Unbracketed :=
        ⟨fun held => absurd (decimal_digits held) (by decide), fun held => absurd (decimal_digits held) (by decide)⟩
      exact Text.unbracketed_append.mpr ⟨Text.unbracketed_append.mpr ⟨by decide, digits⟩, by decide⟩
  | flag => decide

theorem properties_html_unbracketed {value : Text → Prop} {properties : Properties} (fits : properties.Fits Text.Unbracketed value) :
    properties.html.Unbracketed := by
  refine Text.unbracketed_flatMap fun entry member => ?_
  have name : Text.Unbracketed (' ' :: entry.1) := (@Text.unbracketed_append [' '] entry.1).mpr ⟨by decide, (fits entry member).1⟩
  exact Text.unbracketed_append.mpr ⟨name, property_html_unbracketed entry.2⟩

theorem start_tag_tagged {value : Text → Prop} {tag : Text} {properties : Properties} (plain : tag.Unbracketed)
    (fits : properties.Fits Text.Unbracketed value) : (Element.startTag tag properties).escapeTemplate.Tag := by
  have inner := Text.unbracketed_append.mpr ⟨plain, properties_html_unbracketed fits⟩
  refine ⟨_, ?_, Text.escape_template_unbracketed inner⟩
  rw [Element.startTag, List.append_assoc "<".toList, Text.escapeTemplate_append, Text.escapeTemplate_append]
  rfl

theorem end_tag_tagged {tag : Text} (plain : tag.Unbracketed) : (Element.endTag tag).escapeTemplate.Tag := by
  have inner := (@Text.unbracketed_append ['/'] tag).mpr ⟨by decide, plain⟩
  refine ⟨_, ?_, Text.escape_template_unbracketed inner⟩
  rw [Element.endTag, Text.escapeTemplate_append, Text.escapeTemplate_append, Text.escapeTemplate_append]
  rfl

mutual
theorem node_dropTags {value : Text → Prop} : (node : Node) → node.Labelled Text.Unbracketed value → (rest : Text) →
    Text.dropTags false (node.html.escapeTemplate ++ rest) = node.chars.escapeMarkup.escapeTemplate ++ Text.dropTags false rest
  | .text chars, _, rest =>
      Text.dropTags_plain (Text.escape_template_unbracketed (Text.escape_markup_unbracketed chars)).1 rest
  | .element ⟨tag, properties, children⟩, labelled, rest => by
      obtain ⟨plain, valued, inner⟩ := labelled
      rw [Node.html, Text.escapeTemplate_append, Text.escapeTemplate_append, List.append_assoc, List.append_assoc,
        Text.dropTags_tag (start_tag_tagged plain valued), all_dropTags children inner,
        Text.dropTags_tag (end_tag_tagged plain), Node.chars]

theorem all_dropTags {value : Text → Prop} : (nodes : List Node) → Node.AllLabelled Text.Unbracketed value nodes → (rest : Text) →
    Text.dropTags false ((Node.allHtml nodes).escapeTemplate ++ rest) =
      (Node.allChars nodes).escapeMarkup.escapeTemplate ++ Text.dropTags false rest
  | [], _, _ => rfl
  | node :: rest, labelled, behind => by
      have escaped : (node.chars ++ Node.allChars rest).escapeMarkup = node.chars.escapeMarkup ++ (Node.allChars rest).escapeMarkup :=
        List.flatMap_append
      rw [Node.allHtml, Text.escapeTemplate_append, List.append_assoc, node_dropTags node labelled.1,
        all_dropTags rest labelled.2, Node.allChars, escaped, Text.escapeTemplate_append, List.append_assoc]
end

end CodeFence
