import CodeFence.Proofs.Markup.Numbered
import CodeFence.Proofs.Text.Words

set_option autoImplicit false

namespace CodeFence

mutual
def Node.outline : Node → Node
  | .text chars => .text chars
  | .element ⟨tag, _, children⟩ => .element ⟨tag, [], Node.allOutline children⟩

def Node.allOutline : List Node → List Node
  | [] => []
  | node :: rest => node.outline :: Node.allOutline rest
end

def Element.outline (root : Element) : Node :=
  (Node.element root).outline

mutual
theorem annotate_outline {σ : Type} (step : σ → Text → Properties → Properties × σ) (state : σ) :
    (node : Node) → (node.annotate step state).1.outline = node.outline
  | .text _ => rfl
  | .element ⟨tag, properties, children⟩ => by
      rw [Node.annotate, Node.outline, Node.outline, annotate_all_outline step _ children]

theorem annotate_all_outline {σ : Type} (step : σ → Text → Properties → Properties × σ) (state : σ) :
    (nodes : List Node) → Node.allOutline (Node.annotateAll step state nodes).1 = Node.allOutline nodes
  | [] => rfl
  | node :: rest => by
      rw [Node.annotateAll, Node.allOutline, Node.allOutline, annotate_outline step state node, annotate_all_outline step _ rest]
end

mutual
theorem outline_elements : (node : Node) → node.outline.elements = node.elements.map fun element => (element.1, [])
  | .text _ => rfl
  | .element ⟨tag, properties, children⟩ => by
      rw [Node.outline, Node.elements, Node.elements, List.map_cons, all_outline_elements children]

theorem all_outline_elements : (nodes : List Node) →
    Node.allElements (Node.allOutline nodes) = (Node.allElements nodes).map fun element => (element.1, [])
  | [] => rfl
  | node :: rest => by
      rw [Node.allOutline, Node.allElements, Node.allElements, List.map_append, outline_elements node, all_outline_elements rest]
end

theorem outline_size {a b : Node} (same : a.outline = b.outline) : a.elements.length = b.elements.length := by
  have listed := congrArg (fun node : Node => node.elements.length) same
  simpa only [outline_elements, List.length_map] using listed

mutual
theorem node_same : (a b : Node) → a.outline = b.outline → a.elements = b.elements → a = b
  | .text _, .text _, outline, _ => outline
  | .text _, .element ⟨_, _, _⟩, outline, _ => nomatch outline
  | .element ⟨_, _, _⟩, .text _, outline, _ => nomatch outline
  | .element ⟨tag, properties, children⟩, .element ⟨other, others, more⟩, outline, elements => by
      obtain ⟨own, below⟩ := List.cons_eq_cons.mp elements
      obtain ⟨rfl, rfl⟩ := Prod.mk.inj own
      obtain ⟨-, -, inner⟩ := Element.mk.inj (Node.element.inj outline)
      rw [nodes_same children more inner below]

theorem nodes_same : (as bs : List Node) → Node.allOutline as = Node.allOutline bs →
    Node.allElements as = Node.allElements bs → as = bs
  | [], [], _, _ => rfl
  | [], _ :: _, outline, _ => nomatch outline
  | _ :: _, [], outline, _ => nomatch outline
  | a :: as, b :: bs, outline, elements => by
      obtain ⟨head, tail⟩ := List.cons_eq_cons.mp outline
      obtain ⟨first, later⟩ := List.append_inj elements (outline_size head)
      rw [node_same a b head first, nodes_same as bs tail later]
end

namespace Element

variable {root : Element}

theorem same_of_outline {other : Element} (outline : root.outline = other.outline) (own : root.properties = other.properties)
    (below : root.descendants = other.descendants) : root = other := by
  obtain ⟨tag, properties, children⟩ := root
  obtain ⟨label, others, more⟩ := other
  obtain ⟨rfl, -, inner⟩ := Element.mk.inj (Node.element.inj outline)
  obtain rfl : properties = others := own
  rw [nodes_same children more inner below]

def Distinct (root : Element) : Prop :=
  root.properties.names.Nodup ∧ ∀ element ∈ root.descendants, element.2.names.Nodup

instance (root : Element) : Decidable root.Distinct :=
  inferInstanceAs (Decidable (root.properties.names.Nodup ∧ ∀ element ∈ root.descendants, element.2.names.Nodup))

end Element

theorem LineRange.covers_iff {ranges : List LineRange} {line : Nat} :
    covers ranges line = true ↔ ∃ range ∈ ranges, range.first ≤ line ∧ line ≤ range.last := by
  simp [covers, contains]

namespace Properties

variable {properties : Properties}

def Classed (name : Text) (properties : Properties) : Prop :=
  ∃ classes : Text, properties.get? "class".toList = some (.str classes) ∧ classes.HasWord name

theorem classed_iff {name : Text} (visible : name.Visible) : properties.hasClass name = true ↔ properties.Classed name := by
  have worded (classes : Text) : classes.words.contains name = true ↔ classes.HasWord name := by
    rw [List.contains_iff_mem, Text.mem_words_iff]
    exact and_iff_right visible
  unfold hasClass Classed
  cases properties.get? "class".toList with
  | none => simp
  | some value =>
      cases value with
      | str classes => simpa using worded classes
      | int n => simp
      | flag => simp

theorem unclassed {name : Text} (absent : "class".toList ∉ properties.names) : ¬ properties.Classed name := by
  rintro ⟨classes, found, -⟩
  rw [absent_iff.mpr absent] at found
  cases found

-- The properties of a line before and after it got its number.
structure Numbered (ranges : List LineRange) (line : Nat) (before after : Properties) : Prop where
  distinct : after.names.Nodup
  unclassed : "class".toList ∉ after.names
  number : after.get? lineNumber = some (.int line)
  flag : after.get? lineHighlighted =
    if ∃ range ∈ ranges, range.first ≤ line ∧ line ≤ range.last then some .flag else before.get? lineHighlighted
  others : after.besides ["class".toList, lineNumber, lineHighlighted] =
    before.besides ["class".toList, lineNumber, lineHighlighted]

theorem number_unranged (distinct : properties.names.Nodup) (line : Nat) :
    Numbered [] line properties (properties.number [] line) := by
  have shape : properties.number [] line = (properties.erase "class".toList).set lineNumber (.int line) := rfl
  have number := number_line [] line properties
  have gone := absent_iff.mpr (erase_gone distinct "class".toList)
  rw [shape] at number ⊢
  exact {
    distinct := set_distinct (erase_distinct distinct _) _ _
    unclassed := by rw [← absent_iff, get_set, if_neg (by decide), gone]
    number := number
    flag := by rw [get_set, if_neg (by decide), get_erase (by decide), if_neg (by simp)]
    others := by rw [besides_set (by simp), besides_erase (by simp)] }

theorem number_numbered (distinct : properties.names.Nodup) (ranges : List LineRange) (line : Nat) :
    Numbered ranges line properties (properties.number ranges line) := by
  have unranged := number_unranged distinct line
  have number := number_line ranges line properties
  by_cases covered : LineRange.covers ranges line = true
  · rw [number_covered covered] at number ⊢
    exact {
      distinct := set_distinct unranged.distinct _ _
      unclassed := by rw [← absent_iff, get_set, if_neg (by decide), absent_iff.mpr unranged.unclassed]
      number := number
      flag := by rw [get_set, if_pos rfl, if_pos (LineRange.covers_iff.mp covered)]
      others := by rw [besides_set (by simp), unranged.others] }
  · have flag := unranged.flag
    rw [if_neg (by simp)] at flag
    rw [number_uncovered covered]
    exact { unranged with flag := by rw [flag, if_neg (mt LineRange.covers_iff.mpr covered)] }

end Properties

namespace Element

variable {root : Element}

-- A tree before and after numbering: the lines are changed and nothing else below the root.
structure Numbered (ranges : List LineRange) (root numbered : Element) : Prop where
  outline : numbered.outline = root.outline
  own : numbered.properties = root.properties.besides ["class".toList, "tabindex".toList]
  lines : ∀ place line, root.lineAt? place = some line → ∃ before after, root.descendants[place]? = some before ∧
    numbered.descendants[place]? = some after ∧ after.1 = before.1 ∧ before.2.Numbered ranges line after.2
  others : ∀ place, root.lineAt? place = none → numbered.descendants[place]? = root.descendants[place]?

theorem line_at_iff {place line : Nat} : root.lineAt? place = some line ↔
    ∃ before, root.descendants[place]? = some before ∧ isLine before = true ∧ (root.descendants.take place).countP isLine + 1 = line := by
  simp only [lineAt?, Option.ite_none_right_eq_some, Option.any_eq_true, Option.some.injEq]
  constructor
  · rintro ⟨⟨before, stands, counts⟩, number⟩
    exact ⟨before, stands, counts, number⟩
  · rintro ⟨before, stands, counts, number⟩
    exact ⟨⟨before, stands, counts⟩, number⟩

theorem number_lines_outline (root : Element) (ranges : List LineRange) : (root.numberLines ranges).outline = root.outline := by
  obtain ⟨tag, properties, children⟩ := root
  exact congrArg (fun inner => Node.element ⟨tag, [], inner⟩) (annotate_all_outline (numberLine ranges) 1 children)

theorem number_lines_besides (distinct : root.properties.names.Nodup) (ranges : List LineRange) :
    (root.numberLines ranges).properties = root.properties.besides ["class".toList, "tabindex".toList] := by
  have shape : (root.numberLines ranges).properties = (root.properties.erase "class".toList).erase "tabindex".toList := rfl
  have left := Properties.erase_distinct distinct "class".toList
  rw [shape, Properties.erase_besides left, Properties.erase_besides distinct, Properties.besides_besides]
  rfl

theorem number_lines_numbered (distinct : root.Distinct) (ranges : List LineRange) : root.Numbered ranges (root.numberLines ranges) where
  outline := number_lines_outline root ranges
  own := number_lines_besides distinct.1 ranges
  lines place line numbered := by
    obtain ⟨before, stands, counts, number⟩ := line_at_iff.mp numbered
    have found := number_lines_at ranges root place
    rw [stands, Option.map_some, if_pos counts, number] at found
    have names := distinct.2 before (List.mem_of_getElem? stands)
    exact ⟨before, _, stands, found, rfl, Properties.number_numbered names ranges line⟩
  others place unnumbered := by
    rw [number_lines_at]
    cases stands : root.descendants[place]? with
    | none => rfl
    | some before =>
        have other : ¬ isLine before = true := by
          intro counts
          simp [lineAt?, stands, counts] at unnumbered
        rw [Option.map_some, if_neg other]

theorem number_lines_lineless (distinct : root.Distinct) (ranges : List LineRange) :
    ∀ element ∈ (root.numberLines ranges).descendants, ¬ element.2.Classed lineClass := by
  intro element member
  obtain ⟨place, found⟩ := List.mem_iff_getElem?.mp member
  obtain ⟨before, stands, properties⟩ := number_lines_from ranges root found
  rw [properties]
  by_cases counts : isLine before = true
  · rw [if_pos counts]
    have names := distinct.2 before (List.mem_of_getElem? stands)
    exact Properties.unclassed (Properties.number_numbered names ranges _).unclassed
  · rw [if_neg counts]
    exact mt (Properties.classed_iff (by decide)).mpr counts

theorem number_lines_again (distinct : root.Distinct) (ranges others : List LineRange) :
    (root.numberLines ranges).numberLines others = root.numberLines ranges := by
  have bare (name : Text) (held : name ∈ ["class".toList, "tabindex".toList]) :
      (root.numberLines ranges).properties.get? name = none := by
    rw [number_lines_besides distinct.1, Properties.absent_iff]
    exact Properties.besides_gone held _
  apply same_of_outline
  · exact number_lines_outline _ others
  · have unclassed := Properties.erase_absent (bare _ List.mem_cons_self)
    have unindexed := Properties.erase_absent (bare "tabindex".toList (by simp))
    exact (congrArg (Properties.erase "tabindex".toList) unclassed).trans unindexed
  · apply List.ext_getElem?
    intro place
    rw [number_lines_at]
    cases stands : (root.numberLines ranges).descendants[place]? with
    | none => rfl
    | some element =>
        have lineless := number_lines_lineless distinct ranges element (List.mem_of_getElem? stands)
        have other : ¬ isLine element = true := mt (Properties.classed_iff (by decide)).mp lineless
        rw [Option.map_some, if_neg other]

theorem lines_numbered (distinct : root.Distinct) (ranges : List LineRange) :
    (∀ element, isLine element = true ↔ element.2.Classed lineClass) ∧
      root.Numbered ranges (root.numberLines ranges) ∧
      (∀ element ∈ (root.numberLines ranges).descendants, ¬ element.2.Classed lineClass) ∧
      ∀ others, (root.numberLines ranges).numberLines others = root.numberLines ranges :=
  ⟨fun _ => Properties.classed_iff (by decide), number_lines_numbered distinct ranges, number_lines_lineless distinct ranges,
    number_lines_again distinct ranges⟩

-- A line in a line comes second; the first line keeps the flag that it had, and `lines` is another class.
theorem lines_numbered_nested :
    let inner : Element := ⟨"b".toList, [("class".toList, .str "line".toList)], [.text "x".toList]⟩
    let outer : Element :=
      ⟨"span".toList, [(lineHighlighted, .str "old".toList), ("class".toList, .str " line\u3000a".toList)], [.text [], .element inner]⟩
    let other : Element := ⟨"i".toList, [("class".toList, .str "lines".toList)], []⟩
    let root : Element := ⟨"pre".toList, [("tabindex".toList, .str "0".toList), ("style".toList, .flag), ("class".toList, .flag)],
      [.element outer, .element other]⟩
    root.Distinct ∧ root.lineAt? 0 = some 1 ∧ root.lineAt? 1 = some 2 ∧ root.lineAt? 2 = none ∧
      root.Numbered [⟨3, 1⟩, ⟨2, wordMax⟩] (root.numberLines [⟨3, 1⟩, ⟨2, wordMax⟩]) ∧
      (root.numberLines [⟨3, 1⟩, ⟨2, wordMax⟩]).numberLines [⟨1, 1⟩] = root.numberLines [⟨3, 1⟩, ⟨2, wordMax⟩] := by
  intro inner outer other root
  have distinct : root.Distinct := by decide
  obtain ⟨-, numbered, -, again⟩ := lines_numbered distinct [⟨3, 1⟩, ⟨2, wordMax⟩]
  exact ⟨distinct, by decide, by decide, by decide, numbered, again _⟩

end Element
end CodeFence
