import CodeFence.Proofs.Markup.Reading

set_option autoImplicit false

namespace CodeFence

def Property.literal : Property → Property
  | .int n => .str (decimal n)
  | property => property

def Properties.literal (properties : Properties) : Properties :=
  properties.map fun entry => (entry.1, entry.2.literal)

-- Puts a text before some nodes: into the text that stands first there, or as a node of its own if it is not empty.
def Node.joined (chars : Text) : List Node → List Node
  | .text more :: rest => .text (chars ++ more) :: rest
  | nodes => if chars = [] then nodes else .text chars :: nodes

def Node.before : Node → List Node → List Node
  | .text chars, nodes => joined chars nodes
  | .element root, nodes => .element root :: nodes

mutual
def Node.normal : Node → Node
  | .text chars => .text chars
  | .element ⟨tag, properties, children⟩ => .element ⟨tag, properties.literal, Node.allNormal children⟩

def Node.allNormal : List Node → List Node
  | [] => []
  | node :: rest => node.normal.before (Node.allNormal rest)
end

def Element.normal (root : Element) : Element :=
  ⟨root.tag, root.properties.literal, Node.allNormal root.children⟩

theorem joined_cases (nodes : List Node) : (∃ more rest, nodes = .text more :: rest) ∨
    ∀ chars, Node.joined chars nodes = if chars = [] then nodes else .text chars :: nodes := by
  match nodes with
  | [] => exact Or.inr fun _ => rfl
  | .text more :: rest => exact Or.inl ⟨more, rest, rfl⟩
  | .element root :: rest => exact Or.inr fun _ => rfl

theorem joined_nil (nodes : List Node) : Node.joined [] nodes = nodes := by
  rcases joined_cases nodes with ⟨more, rest, rfl⟩ | apart
  · rfl
  · rw [apart, if_pos rfl]

theorem joined_joined (first second : Text) (nodes : List Node) :
    Node.joined first (Node.joined second nodes) = Node.joined (first ++ second) nodes := by
  rcases joined_cases nodes with ⟨more, rest, rfl⟩ | apart
  · simp [Node.joined]
  · rw [apart second]
    by_cases empty : second = []
    · rw [if_pos empty, empty, List.append_nil]
    · rw [if_neg empty, Node.joined, apart, if_neg (by simp [empty])]

theorem joined_html (chars : Text) (nodes : List Node) :
    Node.allHtml (Node.joined chars nodes) = chars.escapeMarkup ++ Node.allHtml nodes := by
  rcases joined_cases nodes with ⟨more, rest, rfl⟩ | apart
  · simp [Node.joined, Node.allHtml, Node.html, Text.escapeMarkup]
  · rw [apart]
    by_cases empty : chars = []
    · rw [if_pos empty, empty]
      rfl
    · rw [if_neg empty]
      rfl

theorem before_html (node : Node) (nodes : List Node) : Node.allHtml (node.before nodes) = node.html ++ Node.allHtml nodes := by
  cases node with
  | text chars => exact joined_html chars nodes
  | element root => rfl

theorem decimal_unescaped (n : Nat) : (decimal n).escapeMarkup = decimal n := by
  have kept : ∀ c ∈ decimal n, Entity.markup c = [c] := by
    intro c held
    have digit := decimal_digits held
    unfold Entity.markup
    split <;> first | rfl | (revert digit; decide)
  exact (List.flatMap_congr kept).trans (List.flatMap_singleton' _)

theorem literal_html (property : Property) : property.literal.html = property.html := by
  cases property with
  | str chars => rfl
  | int n => rw [Property.literal, Property.html, Property.html, decimal_unescaped]
  | flag => rfl

theorem properties_literal_html (properties : Properties) : properties.literal.html = properties.html := by
  rw [Properties.literal, Properties.html, Properties.html, List.flatMap_map]
  simp only [literal_html]

mutual
theorem node_normal_html : (node : Node) → node.normal.html = node.html
  | .text chars => rfl
  | .element ⟨tag, properties, children⟩ => by
      rw [Node.normal, Node.html, Node.html, Element.startTag, Element.startTag, properties_literal_html,
        all_normal_html children]

theorem all_normal_html : (nodes : List Node) → Node.allHtml (Node.allNormal nodes) = Node.allHtml nodes
  | [] => rfl
  | node :: rest => by
      rw [Node.allNormal, before_html, node_normal_html node, all_normal_html rest, Node.allHtml]
end

theorem normal_html (root : Element) : root.normal.html = root.html := by
  obtain ⟨tag, properties, children⟩ := root
  exact node_normal_html (.element ⟨tag, properties, children⟩)

namespace Text

theorem split_unique {holds : Char → Prop} {a b x y : Text} (first : ∀ c ∈ a, holds c) (second : ∀ c ∈ b, holds c)
    (stop : ∀ c ∈ x.head?, ¬ holds c) (halt : ∀ c ∈ y.head?, ¬ holds c) (same : a ++ x = b ++ y) : a = b ∧ x = y := by
  rcases List.append_eq_append_iff.mp same with ⟨more, rfl, rfl⟩ | ⟨more, rfl, rfl⟩
  · cases more with
    | nil => simp
    | cons c more => exact absurd (second c (by simp)) (stop c rfl)
  · cases more with
    | nil => simp
    | cons c more => exact absurd (first c (by simp)) (halt c rfl)

theorem escape_markup_injective : Function.Injective escapeMarkup := by
  intro a b same
  have read := congrArg (fun markup : Text => markup.escapeTemplate.unescape) same
  simpa only [unescape_written] using read

theorem escape_markup_unquoted (text : Text) : '"' ∉ text.escapeMarkup := by
  intro held
  obtain ⟨c, -, inside⟩ := List.mem_flatMap.mp held
  unfold Entity.markup at inside
  split at inside
  · exact absurd inside (by decide)
  · exact absurd inside (by decide)
  · exact absurd inside (by decide)
  · exact absurd inside (by decide)
  · exact absurd inside (by decide)
  · rename_i other
    exact other (List.mem_singleton.mp inside).symm

def Label (text : Text) : Prop :=
  ∀ c ∈ text, c.isAlphanum = true ∨ c = '-'

instance (text : Text) : Decidable text.Label :=
  inferInstanceAs (Decidable (∀ c ∈ text, c.isAlphanum = true ∨ c = '-'))

def Unlabelled (text : Text) : Prop :=
  ∃ c ∈ text.head?, ¬ Label [c]

theorem label_unique {a b x y : Text} (first : a.Label) (second : b.Label) (stop : x.Unlabelled) (halt : y.Unlabelled)
    (same : a ++ x = b ++ y) : a = b ∧ x = y := by
  have ends {text : Text} (stop : text.Unlabelled) : ∀ c ∈ text.head?, ¬ (c.isAlphanum = true ∨ c = '-') := by
    obtain ⟨c, head, other⟩ := stop
    intro d found
    rw [Option.mem_unique found head]
    simpa [Label] using other
  exact split_unique first second (ends stop) (ends halt) same

end Text

open Text (Label Unlabelled)

abbrev Element.Named (root : Element) : Prop :=
  (Node.element root).Labelled Label fun _ => True

abbrev Node.AllNamed (nodes : List Node) : Prop :=
  Node.AllLabelled Label (fun _ => True) nodes

abbrev Properties.Named (properties : Properties) : Prop :=
  properties.Fits Label fun _ => True

theorem property_shown (property : Property) : property.literal = .flag ∧ property.html = [] ∨
    ∃ chars : Text, property.literal = .str chars ∧ property.html = '=' :: '"' :: (chars.escapeMarkup ++ ['"']) := by
  cases property with
  | str chars => exact Or.inr ⟨chars, rfl, rfl⟩
  | int n => exact Or.inr ⟨decimal n, rfl, by rw [decimal_unescaped]; rfl⟩
  | flag => exact Or.inl ⟨rfl, rfl⟩

-- A value ends with its quote, and a name without a value where something else than a value begins.
theorem property_unique {a b : Property} {x y : Text} (stop : '=' ∉ x.head?) (halt : '=' ∉ y.head?)
    (same : a.html ++ x = b.html ++ y) : a.literal = b.literal ∧ x = y := by
  rcases property_shown a with ⟨first, bare⟩ | ⟨chars, first, written⟩
  · rcases property_shown b with ⟨second, void⟩ | ⟨others, second, valued⟩
    · rw [bare, void] at same
      exact ⟨first.trans second.symm, same⟩
    · rw [bare, valued, List.nil_append] at same
      exact absurd (by rw [same]; rfl) stop
  · rcases property_shown b with ⟨second, void⟩ | ⟨others, second, valued⟩
    · rw [written, void, List.nil_append] at same
      exact absurd (by rw [← same]; rfl) halt
    · rw [written, valued] at same
      have values : chars.escapeMarkup ++ '"' :: x = others.escapeMarkup ++ '"' :: y := by simpa using same
      have unquoted (text : Text) : ∀ c ∈ text.escapeMarkup, c ≠ '"' :=
        fun c held quote => Text.escape_markup_unquoted text (quote ▸ held)
      obtain ⟨escaped, rest⟩ := Text.split_unique (unquoted chars) (unquoted others) (by simp) (by simp) values
      rw [first, second, Text.escape_markup_injective escaped]
      exact ⟨rfl, List.tail_eq_of_cons_eq rest⟩

theorem properties_html_cons (name : Text) (value : Property) (rest : Properties) :
    Properties.html ((name, value) :: rest) = ' ' :: (name ++ (value.html ++ rest.html)) := by
  simp [Properties.html]

theorem properties_end (properties : Properties) (x : Text) :
    ∃ c ∈ (properties.html ++ '>' :: x).head?, c = ' ' ∨ c = '>' := by
  cases properties with
  | nil => exact ⟨'>', rfl, Or.inr rfl⟩
  | cons entry rest => exact ⟨' ', rfl, Or.inl rfl⟩

theorem properties_unlabelled (properties : Properties) (x : Text) : Unlabelled (properties.html ++ '>' :: x) := by
  obtain ⟨c, head, rfl | rfl⟩ := properties_end properties x
  · exact ⟨' ', head, by decide⟩
  · exact ⟨'>', head, by decide⟩

theorem properties_valueless (properties : Properties) (x : Text) : '=' ∉ (properties.html ++ '>' :: x).head? := by
  obtain ⟨c, head, rfl | rfl⟩ := properties_end properties x
  · exact fun found => absurd (Option.mem_unique found head) (by decide)
  · exact fun found => absurd (Option.mem_unique found head) (by decide)

theorem property_unlabelled (property : Property) {rest : Text} (stop : rest.Unlabelled) : Unlabelled (property.html ++ rest) := by
  rcases property_shown property with ⟨-, bare⟩ | ⟨chars, -, written⟩
  · rwa [bare]
  · rw [written]
    exact ⟨'=', rfl, by decide⟩

theorem properties_unique {a b : Properties} {x y : Text} (first : a.Named) (second : b.Named)
    (same : a.html ++ '>' :: x = b.html ++ '>' :: y) : a.literal = b.literal ∧ x = y := by
  induction a generalizing b with
  | nil =>
      cases b with
      | nil => exact ⟨rfl, List.tail_eq_of_cons_eq same⟩
      | cons entry more => exact absurd (List.head_eq_of_cons_eq same) (by decide)
  | cons entry rest ih =>
      obtain ⟨name, value⟩ := entry
      cases b with
      | nil => exact absurd (List.head_eq_of_cons_eq same) (by decide)
      | cons other more =>
          obtain ⟨label, content⟩ := other
          obtain ⟨named, fits⟩ := List.forall_mem_cons.mp first
          obtain ⟨labelled, others⟩ := List.forall_mem_cons.mp second
          rw [properties_html_cons, properties_html_cons] at same
          simp only [List.cons_append, List.append_assoc, List.cons.injEq, true_and] at same
          obtain ⟨rfl, values⟩ := Text.label_unique named.1 labelled.1
            (property_unlabelled value (properties_unlabelled rest x)) (property_unlabelled content (properties_unlabelled more y)) same
          obtain ⟨alike, later⟩ := property_unique (properties_valueless rest x) (properties_valueless more y) values
          obtain ⟨tail, behind⟩ := ih fits others later
          simp only [Properties.literal] at tail ⊢
          rw [List.map_cons, List.map_cons, alike, tail]
          exact ⟨rfl, behind⟩

theorem start_tag_shape (tag : Text) (properties : Properties) (x : Text) :
    Element.startTag tag properties ++ x = '<' :: (tag ++ (properties.html ++ '>' :: x)) := by
  simp [Element.startTag]

theorem start_tag_unique {tag label : Text} {a b : Properties} {x y : Text} (named : tag.Label) (labelled : label.Label)
    (first : a.Named) (second : b.Named)
    (same : Element.startTag tag a ++ x = Element.startTag label b ++ y) : tag = label ∧ a.literal = b.literal ∧ x = y := by
  rw [start_tag_shape, start_tag_shape, List.cons_eq_cons] at same
  obtain ⟨tags, rest⟩ := Text.label_unique named labelled (properties_unlabelled a x) (properties_unlabelled b y) same.2
  exact ⟨tags, properties_unique first second rest⟩

def Text.Closing (text : Text) : Prop :=
  ∃ rest, text = '<' :: '/' :: rest

theorem end_tag_closing (tag x : Text) : Text.Closing (Element.endTag tag ++ x) :=
  ⟨tag ++ ">".toList ++ x, rfl⟩

theorem start_tag_opens {tag : Text} (named : tag.Label) (properties : Properties) (x : Text) :
    ¬ Text.Closing (Element.startTag tag properties ++ x) := by
  rintro ⟨rest, shape⟩
  rw [start_tag_shape, List.cons_eq_cons] at shape
  have slash : Unlabelled ('/' :: rest) := ⟨'/', rfl, by decide⟩
  have empty : Label [] := by decide
  obtain ⟨-, behind⟩ := Text.label_unique named empty (properties_unlabelled properties x) slash shape.2
  obtain ⟨c, head, sign⟩ := properties_end properties x
  rw [behind] at head
  obtain rfl : '/' = c := Option.some.inj head
  exact absurd sign (by decide)

theorem front_text (nodes : List Node) : ∃ (chars : Text) (rest : List Node),
    Node.allHtml nodes = chars.escapeMarkup ++ Node.allHtml rest ∧ Node.allNormal nodes = Node.joined chars (Node.allNormal rest) ∧
      (Node.AllNamed nodes → Node.AllNamed rest) ∧
      (rest = [] ∨ ∃ root more, rest = .element root :: more) := by
  induction nodes with
  | nil => exact ⟨[], [], rfl, rfl, id, Or.inl rfl⟩
  | cons node rest ih =>
      cases node with
      | element root => exact ⟨[], .element root :: rest, rfl, (joined_nil _).symm, id, Or.inr ⟨root, rest, rfl⟩⟩
      | text chars =>
          obtain ⟨more, last, html, normal, labelled, first⟩ := ih
          refine ⟨chars ++ more, last, ?_, ?_, fun all => labelled all.2, first⟩
          · simp [Node.allHtml, Node.html, html, Text.escapeMarkup]
          · rw [Node.allNormal, Node.normal, Node.before, normal, joined_joined]

theorem element_first (tag : Text) (properties : Properties) (children rest : List Node) (x : Text) :
    Node.allHtml (.element ⟨tag, properties, children⟩ :: rest) ++ x =
      Element.startTag tag properties ++ (Node.allHtml children ++ (Element.endTag tag ++ (Node.allHtml rest ++ x))) := by
  simp [Node.allHtml, Node.html]

theorem front_bracket {rest : List Node} {x : Text} (lead : rest = [] ∨ ∃ root more, rest = .element root :: more)
    (stop : x.Closing) : ∀ c ∈ (Node.allHtml rest ++ x).head?, ¬ c ≠ '<' := by
  rcases lead with rfl | ⟨⟨tag, properties, children⟩, more, rfl⟩
  · obtain ⟨behind, rfl⟩ := stop
    rintro c ⟨⟩
    exact not_not_intro rfl
  · rw [element_first, start_tag_shape]
    rintro c ⟨⟩
    exact not_not_intro rfl

-- The nodes that stand before an end tag: their texts end with a bracket, which opens a tag or is that of the end tag.
theorem all_html_unique {nodes others : List Node} {x y : Text} (first : Node.AllNamed nodes) (second : Node.AllNamed others)
    (stop : x.Closing) (halt : y.Closing)
    (same : Node.allHtml nodes ++ x = Node.allHtml others ++ y) : Node.allNormal nodes = Node.allNormal others ∧ x = y := by
  induction size : (Node.allHtml nodes).length using Nat.strong_induction_on generalizing nodes others x y with
  | _ bound ih =>
      obtain ⟨chars, rest, html, normal, labelled, lead⟩ := front_text nodes
      obtain ⟨text, more, written, form, labels, start⟩ := front_text others
      have plain (text : Text) : ∀ c ∈ text.escapeMarkup, c ≠ '<' :=
        fun c held bracket => (Text.escape_markup_unbracketed text).1 (bracket ▸ held)
      rw [html, written, List.append_assoc, List.append_assoc] at same
      obtain ⟨escaped, later⟩ := Text.split_unique (plain chars) (plain text) (front_bracket lead stop) (front_bracket start halt) same
      have first := labelled first
      have second := labels second
      rw [normal, form, Text.escape_markup_injective escaped]
      rcases lead with rfl | ⟨⟨tag, properties, children⟩, tail, rfl⟩
      · rcases start with rfl | ⟨⟨label, values, inner⟩, back, rfl⟩
        · exact ⟨rfl, later⟩
        · rw [element_first, Node.allHtml, List.nil_append] at later
          rw [later] at stop
          exact absurd stop (start_tag_opens second.1.1 _ _)
      · rcases start with rfl | ⟨⟨label, values, inner⟩, back, rfl⟩
        · rw [element_first, Node.allHtml, List.nil_append] at later
          rw [← later] at halt
          exact absurd halt (start_tag_opens first.1.1 _ _)
        · have shorter : (Node.allHtml children).length < bound ∧ (Node.allHtml tail).length < bound := by
            have opened : "<".toList.length = 1 := rfl
            rw [← size, html]
            simp only [Node.allHtml, Node.html, Element.startTag, List.length_append]
            omega
          rw [element_first, element_first] at later
          obtain ⟨rfl, alike, inside⟩ := start_tag_unique first.1.1 second.1.1 first.1.2.1 second.1.2.1 later
          obtain ⟨kids, behind⟩ := ih _ shorter.1 first.1.2.2 second.1.2.2 (end_tag_closing tag _) (end_tag_closing tag _) inside rfl
          obtain ⟨siblings, done⟩ := ih _ shorter.2 first.2 second.2 stop halt (List.append_cancel_left behind) rfl
          rw [Node.allNormal, Node.allNormal, Node.normal, Node.normal, alike, kids, siblings]
          exact ⟨rfl, done⟩

theorem Element.html_determines {a b : Element} (first : a.Named) (second : b.Named) : a.html = b.html ↔ a.normal = b.normal := by
  constructor
  · intro same
    have single (root : Element) : Node.allHtml [.element root] = root.html := List.append_nil _
    have whole : Node.allHtml [.element a] ++ "</".toList = Node.allHtml [.element b] ++ "</".toList := by
      rw [single, single, same]
    have closing : Text.Closing "</".toList := ⟨[], rfl⟩
    obtain ⟨normal, -⟩ := @all_html_unique [.element a] [.element b] _ _ ⟨first, trivial⟩ ⟨second, trivial⟩ closing closing whole
    have alone (root : Element) : Node.allNormal [.element root] = [.element root.normal] := by
      cases root
      rfl
    rw [alone, alone] at normal
    exact Node.element.inj (List.head_eq_of_cons_eq normal)
  · intro same
    rw [← normal_html a, ← normal_html b, same]

theorem Element.html_determines_twins :
    let first : Element := ⟨"p".toList, [("data-x".toList, .int 7), ("t".toList, .str "\"> <b".toList)],
      [.text "<b>".toList, .text [], .text "</b>".toList]⟩
    let second : Element := ⟨"p".toList, [("data-x".toList, .str "7".toList), ("t".toList, .str "\"> <b".toList)],
      [.text "<b></b>".toList]⟩
    let third : Element := ⟨"p".toList, [("data-x".toList, .str "7".toList), ("t".toList, .str "\"> <b".toList)],
      [.element ⟨"b".toList, [], []⟩]⟩
    first.Named ∧ second.Named ∧ third.Named ∧ first ≠ second ∧ first.html = second.html ∧ first.html ≠ third.html := by
  intro first second third
  have plain : first.Named ∧ second.Named ∧ third.Named := by
    simp [first, second, third, Node.Labelled, Node.AllLabelled, Properties.Fits, Property.Fits]
    decide
  obtain ⟨named, others, more⟩ := plain
  have forms : first.normal = second.normal ∧ first.normal ≠ third.normal := by decide
  refine ⟨named, others, more, by decide, (html_determines named others).mpr forms.1, ?_⟩
  exact mt (html_determines named more).mp forms.2

end CodeFence
