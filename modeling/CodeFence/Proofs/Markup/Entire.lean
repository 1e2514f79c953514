import CodeFence.Placeholder
import CodeFence.Proofs.Engine.Plain
import CodeFence.Proofs.Markup.Labels

set_option autoImplicit false

namespace CodeFence

open Text (Lacks)

namespace Text

-- Every ampersand goes on, and none with a small t or a tilde.
def Entire (text : Text) : Prop :=
  text.Lacks ['&', 't'] ∧ text.Lacks ['&', '~'] ∧ ∀ c ∈ text.getLast?, c ≠ '&'

instance (text : Text) : Decidable text.Entire :=
  inferInstanceAs (Decidable (text.Lacks ['&', 't'] ∧ text.Lacks ['&', '~'] ∧ ∀ c ∈ text.getLast?, c ≠ '&'))

theorem lacks_joined {a b : Text} {x y : Char} (first : a.Lacks [x, y]) (second : b.Lacks [x, y])
    (final : ∀ c ∈ a.getLast?, c ≠ x) : Lacks (a ++ b) [x, y] := by
  induction a with
  | nil => exact second
  | cons c a ih =>
      intro found
      cases a with
      | nil =>
          rcases List.infix_cons_iff.mp found with front | deeper
          · exact final c rfl (List.cons_prefix_cons.mp front).1.symm
          · exact second deeper
      | cons d a =>
          rcases List.infix_cons_iff.mp found with front | deeper
          · have here : [x, y] <+: c :: d :: a := by simpa [List.cons_prefix_cons] using front
            exact first here.isInfix
          · exact ih (lacks_part first (List.suffix_cons c _).isInfix) final deeper

theorem entire_append {a b : Text} (first : a.Entire) (second : b.Entire) : Entire (a ++ b) := by
  refine ⟨lacks_joined first.1 second.1 first.2.2, lacks_joined first.2.1 second.2.1 first.2.2, ?_⟩
  by_cases empty : b = []
  · rw [empty, List.append_nil]
    exact first.2.2
  · rw [List.getLast?_append_of_ne_nil a empty]
    exact second.2.2

theorem entire_nil : Entire [] := by decide

theorem entire_flatMap {write : Char → Text} {text : Text} (each : ∀ c ∈ text, (write c).Entire) : Entire (text.flatMap write) := by
  induction text with
  | nil => exact entire_nil
  | cons c rest ih =>
      obtain ⟨here, later⟩ := List.forall_mem_cons.mp each
      rw [List.flatMap_cons]
      exact entire_append here (ih later)

theorem entire_single {c : Char} (other : c ≠ '&') : Entire [c] := by
  have short (d : Char) : Lacks [c] ['&', d] := fun found => by simpa using found.length_le
  exact ⟨short 't', short '~', by simpa using other⟩

theorem entire_behind {text : Text} (entire : text.Entire) {rest : Text} (suffix : rest <:+ text) : rest.Entire := by
  refine ⟨lacks_part entire.1 suffix.isInfix, lacks_part entire.2.1 suffix.isInfix, ?_⟩
  obtain ⟨front, rfl⟩ := suffix
  by_cases empty : rest = []
  · simp [empty]
  · have final := entire.2.2
    rwa [List.getLast?_append_of_ne_nil front empty] at final

theorem entire_before {front rest : Text} (entire : Entire (front ++ '~' :: rest)) : front.Entire := by
  have inside : front <:+: front ++ '~' :: rest := (List.prefix_append front _).isInfix
  refine ⟨lacks_part entire.1 inside, lacks_part entire.2.1 inside, ?_⟩
  rintro c final rfl
  obtain ⟨init, rfl⟩ := List.getLast?_eq_some_iff.mp final
  exact entire.2.1 ⟨init, rest, by simp⟩

theorem entire_uncovered {text : Text} (entire : text.Entire) : text.Lacks Placeholder.tildeFence :=
  lacks_longer entire.1 ⟨[], "riptilde;".toList, rfl⟩

def Shown (text : Text) : Prop :=
  text.escapeTemplate.Entire

instance (text : Text) : Decidable text.Shown :=
  inferInstanceAs (Decidable text.escapeTemplate.Entire)

theorem shown_append {a b : Text} (first : a.Shown) (second : b.Shown) : Shown (a ++ b) := by
  rw [Shown, escapeTemplate_append]
  exact entire_append first second

end Text

namespace Entity

theorem template_entire {c : Char} (other : c ≠ '&') : (template c).Entire := by
  unfold template
  split
  · decide
  · decide
  · decide
  · exact Text.entire_single other

theorem markup_entire (c : Char) : (markup c).Entire ∧ (markup c).Shown := by
  unfold markup
  split
  · decide
  · decide
  · decide
  · decide
  · decide
  · rename_i other _ _
    refine ⟨Text.entire_single other, ?_⟩
    simpa [Text.Shown, Text.escapeTemplate] using template_entire other

end Entity

theorem escape_markup_entire (text : Text) : text.escapeMarkup.Entire :=
  Text.entire_flatMap fun c _ => (Entity.markup_entire c).1

theorem escape_markup_shown (text : Text) : text.escapeMarkup.Shown := by
  unfold Text.Shown Text.escapeTemplate Text.escapeMarkup
  rw [List.flatMap_assoc]
  exact Text.entire_flatMap fun c _ => (Entity.markup_entire c).2

theorem Text.plain_shown {text : Text} (plain : '&' ∉ text) : text.Shown :=
  Text.entire_flatMap fun _ held => Entity.template_entire fun same => plain (same ▸ held)

theorem decimal_shown (n : Nat) : (decimal n).Shown := by
  apply Text.plain_shown
  intro held
  have digit := decimal_digits held
  revert digit
  decide

theorem property_html_shown (property : Property) : property.html.Shown := by
  cases property with
  | str chars => exact Text.shown_append (Text.shown_append (by decide) (escape_markup_shown chars)) (by decide)
  | int n => exact Text.shown_append (Text.shown_append (by decide) (decimal_shown n)) (by decide)
  | flag => decide

theorem properties_html_shown {value : Text → Prop} {properties : Properties} (fits : properties.Fits Text.Shown value) :
    properties.html.Shown := by
  induction properties with
  | nil => decide
  | cons entry properties ih =>
      obtain ⟨⟨named, -⟩, later⟩ := List.forall_mem_cons.mp fits
      have name : Text.Shown (' ' :: entry.1) := @Text.shown_append [' '] entry.1 (by decide) named
      rw [Properties.html, List.flatMap_cons]
      exact Text.shown_append (Text.shown_append name (property_html_shown entry.2)) (ih later)

mutual
theorem node_html_shown {value : Text → Prop} : (node : Node) → node.Labelled Text.Shown value → node.html.Shown
  | .text chars, _ => escape_markup_shown chars
  | .element ⟨tag, properties, children⟩, labelled => by
      obtain ⟨named, valued, inner⟩ := labelled
      have start : (Element.startTag tag properties).Shown :=
        Text.shown_append (Text.shown_append (Text.shown_append (by decide) named) (properties_html_shown valued)) (by decide)
      have stop : (Element.endTag tag).Shown :=
        Text.shown_append (Text.shown_append (by decide) named) (by decide)
      rw [Node.html]
      exact Text.shown_append (Text.shown_append start (all_html_shown children inner)) stop

theorem all_html_shown {value : Text → Prop} : (nodes : List Node) → Node.AllLabelled Text.Shown value nodes →
    (Node.allHtml nodes).Shown
  | [], _ => by decide
  | node :: rest, labelled => by
      rw [Node.allHtml]
      exact Text.shown_append (node_html_shown node labelled.1) (all_html_shown rest labelled.2)
end

namespace Highlighter

theorem wrap_entire (highlighter : Highlighter) {markup : Text} (shown : markup.Shown) :
    (highlighter.wrap markup.escapeTemplate).Entire := by
  have wrapper := escape_markup_entire highlighter.wrapperClass
  have opened : Text.Entire "<div class=\"".toList := by decide
  have middle : Text.Entire "\">".toList := by decide
  have closed : Text.Entire "</div>".toList := by decide
  have front := Text.entire_append (Text.entire_append opened wrapper) middle
  exact Text.entire_append (Text.entire_append front shown) closed

theorem plain_entire {highlighter : Highlighter} (plain : highlighter.engine = Engine.plain) {earlier : Nat}
    {raw html : Text} {language : Language} (made : highlighter.fragment earlier raw language = .ok html) : html.Entire := by
  rw [plain_fragment plain, Except.ok.injEq] at made
  have named : ∀ tag ∈ Plain.names, tag.Shown := by decide
  have tree : (Node.element (Plain.tree (highlighter.request (code raw) language))).Fits Text.Shown fun _ => True :=
    Plain.tree_fits named (fun _ _ => trivial) trivial trivial (fun _ _ => trivial) language
  have numbered := number_lines_fits (by decide) tree (Directive.parse raw).lines
  rw [← made]
  exact wrap_entire highlighter (node_html_shown _ (fits_labelled _ numbered))

end Highlighter
end CodeFence
