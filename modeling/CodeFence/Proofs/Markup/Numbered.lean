import CodeFence.Markup.Numbered
import CodeFence.Proofs.Markup.Properties
import Mathlib.Data.List.Basic

set_option autoImplicit false

namespace CodeFence

mutual
def Node.elements : Node → List (Text × Properties)
  | .text _ => []
  | .element ⟨tag, properties, children⟩ => (tag, properties) :: Node.allElements children

def Node.allElements : List Node → List (Text × Properties)
  | [] => []
  | node :: rest => node.elements ++ Node.allElements rest
end

def Element.descendants (root : Element) : List (Text × Properties) :=
  Node.allElements root.children

section Threaded

variable {σ α : Type} (step : σ → α → α × σ)

theorem threaded_append (state : σ) (first second : List α) : threaded step state (first ++ second) =
    ((threaded step state first).1 ++ (threaded step (threaded step state first).2 second).1,
      (threaded step (threaded step state first).2 second).2) := by
  induction first generalizing state with
  | nil => rfl
  | cons item rest ih => simp [threaded, ih]

theorem threaded_at (state : σ) (items : List α) (place : Nat) : (threaded step state items).1[place]? =
    items[place]?.map fun item => (step (threaded step state (items.take place)).2 item).1 := by
  induction items generalizing state place with
  | nil => simp [threaded]
  | cons item rest ih =>
      cases place with
      | zero => rfl
      | succ place => simp [threaded, ih]

end Threaded

section Walks

variable {σ : Type} (step : σ → Text → Properties → Properties × σ)

def elementStep (state : σ) (element : Text × Properties) : (Text × Properties) × σ :=
  ((element.1, (step state element.1 element.2).1), (step state element.1 element.2).2)

mutual
theorem annotate_elements (state : σ) : (node : Node) →
    ((node.annotate step state).1.elements, (node.annotate step state).2) = threaded (elementStep step) state node.elements
  | .text _ => rfl
  | .element ⟨tag, properties, children⟩ => by
      have inner := annotate_all_elements (step state tag properties).2 children
      simp only [Node.annotate, Node.elements, threaded, elementStep] at inner ⊢
      rw [← inner]

theorem annotate_all_elements (state : σ) : (nodes : List Node) →
    (Node.allElements (Node.annotateAll step state nodes).1, (Node.annotateAll step state nodes).2) =
      threaded (elementStep step) state (Node.allElements nodes)
  | [] => rfl
  | node :: rest => by
      have head := annotate_elements state node
      have tail := annotate_all_elements (node.annotate step state).2 rest
      simp only [Node.annotateAll, Node.allElements]
      rw [threaded_append, ← head, ← tail]
end

def annotator (state : σ) (root : Element) : Element × σ :=
  ({ root with properties := (step state root.tag root.properties).1 }, (step state root.tag root.properties).2)

theorem element_height (root : Element) : (Node.element root).height = Node.maxHeight root.children + 1 := by
  cases root
  rfl

theorem visit_annotate {below : σ → List Node → List Node × σ} {node : Node}
    (agrees : ∀ root, node = .element root → ∀ state, below state root.children = Node.annotateAll step state root.children)
    (state : σ) : Node.visit (annotator step) below state node = node.annotate step state := by
  cases node with
  | text chars => rfl
  | element root =>
      have inner := agrees root rfl (step state root.tag root.properties).2
      cases root
      simp only [Node.visit, annotator, inner, Node.annotate]

theorem visit_all_annotates {depth : Nat} {nodes : List Node} (deep : Node.maxHeight nodes ≤ depth) (state : σ) :
    Node.visitAll (annotator step) depth state nodes = Node.annotateAll step state nodes := by
  induction depth generalizing nodes state with
  | zero =>
      induction nodes with
      | nil => rfl
      | cons node rest ih =>
          obtain ⟨first, later⟩ := Nat.max_le.mp deep
          cases node with
          | text chars =>
              have tail : Node.annotateAll step state rest = (rest, state) := (ih later).symm
              rw [Node.annotateAll, Node.annotate, tail]
              rfl
          | element root =>
              rw [element_height] at first
              omega
  | succ depth ih =>
      rw [Node.visitAll]
      induction nodes generalizing state with
      | nil => rfl
      | cons node rest inner =>
          obtain ⟨first, later⟩ := Nat.max_le.mp deep
          have agrees (root : Element) (same : node = .element root) (state : σ) :
              Node.visitAll (annotator step) depth state root.children = Node.annotateAll step state root.children := by
            rw [same, element_height] at first
            exact ih (by omega) state
          rw [threaded, Node.annotateAll, visit_annotate step agrees, inner later]

-- Down to the deepest element, a visit that changes properties only is a walk.
theorem visit_annotates {depth : Nat} {root : Element} (deep : root.height ≤ depth) (state : σ) :
    root.visit (annotator step) depth state = root.annotate step state := by
  have below : Node.maxHeight root.children ≤ depth := by
    rw [Element.height, element_height] at deep
    omega
  rw [Element.visit, Element.annotate, visit_all_annotates step below]

end Walks

def Element.numbered (ranges : List LineRange) (line : Nat) (root : Element) : Element × Nat :=
  if root.hasClass lineClass then ({ root with properties := root.properties.number ranges line }, line + 1) else (root, line)

theorem Element.number_lines_visits (ranges : List LineRange) (block : Element) :
    let bare := (block.eraseProperty "class".toList).eraseProperty "tabindex".toList
    block.numberLines ranges = (bare.visit (Element.numbered ranges) bare.height 1).1 := by
  intro bare
  have same : annotator (numberLine ranges) = Element.numbered ranges := by
    funext line root
    rw [annotator, numberLine, Element.numbered, Element.hasClass]
    by_cases classed : root.properties.hasClass lineClass
    · rw [if_pos classed, if_pos classed]
    · rw [if_neg classed, if_neg classed]
      cases root
      rfl
  rw [← same, visit_annotates (numberLine ranges) (Nat.le_refl _)]
  rfl

namespace Properties

theorem number_line (ranges : List LineRange) (line : Nat) (properties : Properties) :
    (properties.number ranges line).get? lineNumber = some (.int line) := by
  have apart : lineHighlighted ≠ lineNumber := by decide
  unfold Properties.number
  by_cases covered : LineRange.covers ranges line = true <;> simp [covered, get_set, apart]

theorem number_plain {properties : Properties} (absent : properties.get? lineHighlighted = none) (line : Nat) :
    (properties.number [] line).get? lineHighlighted = none := by
  have plain : "class".toList ≠ lineHighlighted := by decide
  have apart : lineNumber ≠ lineHighlighted := by decide
  have other := get_set lineNumber lineHighlighted (.int line) (properties.erase "class".toList)
  rw [if_neg apart, get_erase plain, absent] at other
  exact other

theorem number_covered {ranges : List LineRange} {line : Nat} (covered : LineRange.covers ranges line = true) (properties : Properties) :
    properties.number ranges line = (properties.number [] line).set lineHighlighted .flag :=
  if_pos covered

theorem number_uncovered {ranges : List LineRange} {line : Nat} (outside : ¬ LineRange.covers ranges line = true)
    (properties : Properties) : properties.number ranges line = properties.number [] line :=
  if_neg outside

theorem number_flag (ranges : List LineRange) (line : Nat) {properties : Properties} (absent : properties.get? lineHighlighted = none) :
    (properties.number ranges line).get? lineHighlighted = if LineRange.covers ranges line then some .flag else none := by
  by_cases covered : LineRange.covers ranges line = true
  · rw [number_covered covered, get_set, if_pos rfl, if_pos covered]
  · rw [number_uncovered covered, number_plain absent, if_neg covered]

-- Without the flag nothing tells that the line was in a range.
theorem number_unflagged (ranges : List LineRange) (line : Nat) {properties : Properties}
    (absent : properties.get? lineHighlighted = none) :
    (properties.number ranges line).erase lineHighlighted = properties.number [] line := by
  have plain := number_plain absent line
  by_cases covered : LineRange.covers ranges line = true
  · rw [number_covered covered, erase_set plain]
  · rw [number_uncovered covered, erase_absent plain]

end Properties

def isLine (element : Text × Properties) : Bool :=
  element.2.hasClass lineClass

def dropping (name : Text) (_ : Unit) (_tag : Text) (properties : Properties) : Properties × Unit :=
  (properties.erase name, ())

namespace Element

def lineAt? (root : Element) (place : Nat) : Option Nat :=
  if root.descendants[place]?.any isLine then some ((root.descendants.take place).countP isLine + 1) else none

def Bare (root : Element) (name : Text) : Prop :=
  root.properties.get? name = none ∧ ∀ element ∈ root.descendants, element.2.get? name = none

instance (root : Element) (name : Text) : Decidable (root.Bare name) :=
  inferInstanceAs (Decidable (root.properties.get? name = none ∧ ∀ element ∈ root.descendants, element.2.get? name = none))

def without (root : Element) (name : Text) : Element :=
  ((root.eraseProperty name).annotate (dropping name) ()).1

-- The lines have their numbers, and of all elements just those lines that are in the ranges have the flag.
structure Flagged (root flagged : Element) (ranges : List LineRange) : Prop where
  own : flagged.property? lineHighlighted = none
  lines : ∀ place line, root.lineAt? place = some line → ∃ element, flagged.descendants[place]? = some element ∧
    element.2.get? lineNumber = some (.int line) ∧
    element.2.get? lineHighlighted = if LineRange.covers ranges line then some .flag else none
  others : ∀ place, root.lineAt? place = none → ∀ element ∈ flagged.descendants[place]?, element.2.get? lineHighlighted = none

end Element

section Numbering

variable (ranges : List LineRange)

theorem number_step_line (line : Nat) {element : Text × Properties} (counts : isLine element = true) :
    elementStep (numberLine ranges) line element = ((element.1, element.2.number ranges line), line + 1) := by
  have numbered : numberLine ranges line element.1 element.2 = (element.2.number ranges line, line + 1) := if_pos counts
  simp only [elementStep, numbered]

theorem number_step_other (line : Nat) {element : Text × Properties} (other : ¬ isLine element = true) :
    elementStep (numberLine ranges) line element = (element, line) := by
  have kept : numberLine ranges line element.1 element.2 = (element.2, line) := if_neg other
  simp only [elementStep, kept]

theorem number_state (first : Nat) (elements : List (Text × Properties)) :
    (threaded (elementStep (numberLine ranges)) first elements).2 = elements.countP isLine + first := by
  induction elements generalizing first with
  | nil => exact (Nat.zero_add first).symm
  | cons element rest ih =>
      rw [threaded, ih]
      by_cases line : isLine element = true
      · rw [List.countP_cons_of_pos line, number_step_line ranges first line]
        omega
      · rw [List.countP_cons_of_neg line, number_step_other ranges first line]

theorem number_lines_at (root : Element) (place : Nat) : (root.numberLines ranges).descendants[place]? =
    root.descendants[place]?.map fun element =>
      (element.1, if isLine element then element.2.number ranges ((root.descendants.take place).countP isLine + 1) else element.2) := by
  have walked := congrArg Prod.fst (annotate_all_elements (numberLine ranges) 1 root.children)
  have listed : (root.numberLines ranges).descendants =
      (threaded (elementStep (numberLine ranges)) 1 root.descendants).1 := walked
  rw [listed, threaded_at, number_state]
  refine congrArg (Option.map · _) (funext fun element => ?_)
  by_cases line : isLine element = true
  · rw [if_pos line, number_step_line ranges _ line]
  · rw [if_neg line, number_step_other ranges _ line]

theorem number_lines_from (root : Element) {place : Nat} {element : Text × Properties}
    (found : (root.numberLines ranges).descendants[place]? = some element) :
    ∃ before, root.descendants[place]? = some before ∧
      element.2 = if isLine before then before.2.number ranges ((root.descendants.take place).countP isLine + 1) else before.2 := by
  rw [number_lines_at] at found
  obtain ⟨before, stands, rfl⟩ := Option.map_eq_some_iff.mp found
  exact ⟨before, stands, rfl⟩

theorem number_lines_own (root : Element) (absent : root.properties.get? lineHighlighted = none) :
    (root.numberLines ranges).property? lineHighlighted = none := by
  have plain : "class".toList ≠ lineHighlighted := by decide
  have index : "tabindex".toList ≠ lineHighlighted := by decide
  have untagged : (root.properties.erase "class".toList).get? lineHighlighted = none := (Properties.get_erase plain _).trans absent
  exact (Properties.get_erase index _).trans untagged

theorem number_lines_flagged {root : Element} (bare : root.Bare lineHighlighted) : root.Flagged (root.numberLines ranges) ranges where
  own := number_lines_own ranges root bare.1
  lines place line numbered := by
    simp only [Element.lineAt?, Option.ite_none_right_eq_some, Option.any_eq_true] at numbered
    obtain ⟨⟨before, stands, counts⟩, number⟩ := numbered
    have unflagged := bare.2 before (List.mem_of_getElem? stands)
    have found := number_lines_at ranges root place
    rw [stands, Option.map_some, if_pos counts, Option.some.inj number] at found
    exact ⟨_, found, Properties.number_line ranges line before.2, Properties.number_flag ranges line unflagged⟩
  others place unnumbered element found := by
    obtain ⟨before, stands, properties⟩ := number_lines_from ranges root found
    have other : ¬ isLine before = true := by
      intro counts
      simp [Element.lineAt?, stands, counts] at unnumbered
    rw [properties, if_neg other]
    exact bare.2 before (List.mem_of_getElem? stands)

theorem number_step_unflagged (line : Nat) (tag : Text) {properties : Properties}
    (absent : properties.get? lineHighlighted = none) :
    ((numberLine ranges line tag properties).1.erase lineHighlighted, (numberLine ranges line tag properties).2) =
      numberLine [] line tag properties := by
  unfold numberLine
  by_cases counts : properties.hasClass lineClass = true
  · simp only [if_pos counts, Properties.number_unflagged ranges line absent]
  · simp only [if_neg counts, Properties.erase_absent absent]

mutual
theorem number_node_unflagged (line : Nat) : (node : Node) → (∀ element ∈ node.elements, element.2.get? lineHighlighted = none) →
    (((node.annotate (numberLine ranges) line).1.annotate (dropping lineHighlighted) ()).1,
      (node.annotate (numberLine ranges) line).2) = node.annotate (numberLine []) line
  | .text _, _ => rfl
  | .element ⟨tag, properties, children⟩, bare => by
      obtain ⟨own, below⟩ := List.forall_mem_cons.mp bare
      have step := number_step_unflagged ranges line tag own
      have inner := number_nodes_unflagged (numberLine [] line tag properties).2 children below
      rw [← step] at inner
      simp only [Node.annotate, dropping, ← step, ← inner]

theorem number_nodes_unflagged (line : Nat) : (nodes : List Node) →
    (∀ element ∈ Node.allElements nodes, element.2.get? lineHighlighted = none) →
    ((Node.annotateAll (dropping lineHighlighted) () (Node.annotateAll (numberLine ranges) line nodes).1).1,
      (Node.annotateAll (numberLine ranges) line nodes).2) = Node.annotateAll (numberLine []) line nodes
  | [], _ => rfl
  | node :: rest, bare => by
      obtain ⟨first, others⟩ := List.forall_mem_append.mp bare
      have head := number_node_unflagged line node first
      have tail := number_nodes_unflagged (node.annotate (numberLine []) line).2 rest others
      rw [← head] at tail
      simp only [Node.annotateAll, ← head, ← tail]
end

theorem number_lines_without {root : Element} (bare : root.Bare lineHighlighted) :
    (root.numberLines ranges).without lineHighlighted = root.numberLines [] := by
  have walked := congrArg Prod.fst (number_nodes_unflagged ranges 1 root.children bare.2)
  have unflagged := Properties.erase_absent (number_lines_own ranges root bare.1)
  simp only [Element.numberLines, Element.annotate, Element.eraseProperty] at walked unflagged
  simp only [Element.without, Element.numberLines, Element.annotate, Element.eraseProperty, walked, unflagged]

end Numbering

end CodeFence
