import CodeFence.Markup.Properties

set_option autoImplicit false

namespace CodeFence

section Annotate

variable {σ : Type} (step : σ → Text → Properties → Properties × σ)

mutual
def Node.annotate (state : σ) : Node → Node × σ
  | .text chars => (.text chars, state)
  | .element ⟨tag, properties, children⟩ =>
      let own := step state tag properties
      let inner := Node.annotateAll own.2 children
      (.element ⟨tag, own.1, inner.1⟩, inner.2)

def Node.annotateAll (state : σ) : List Node → List Node × σ
  | [] => ([], state)
  | node :: rest =>
      let head := node.annotate state
      let tail := Node.annotateAll head.2 rest
      (head.1 :: tail.1, tail.2)
end

-- Changes the properties of every descendant; the element's own properties stay.
def Element.annotate (state : σ) (root : Element) : Element × σ :=
  let inner := Node.annotateAll step state root.children
  ({ root with children := inner.1 }, inner.2)

mutual
theorem Node.annotate_chars (state : σ) : (node : Node) → (node.annotate step state).1.chars = node.chars
  | .text _ => rfl
  | .element ⟨_, _, children⟩ => by
      simpa only [Node.annotate, Node.chars] using Node.annotateAll_chars _ children

theorem Node.annotateAll_chars (state : σ) : (nodes : List Node) →
    Node.allChars (Node.annotateAll step state nodes).1 = Node.allChars nodes
  | [] => rfl
  | node :: rest => by
      simp only [Node.annotateAll, Node.allChars, Node.annotate_chars, Node.annotateAll_chars]
end

theorem Element.annotate_chars (state : σ) (root : Element) : (root.annotate step state).1.chars = root.chars :=
  Node.annotateAll_chars step state root.children

end Annotate

section Visit

variable {σ : Type} (visitor : σ → Element → Element × σ)

def threaded {α : Type} (step : σ → α → α × σ) (state : σ) : List α → List α × σ
  | [] => ([], state)
  | item :: rest =>
      let head := step state item
      let tail := threaded step head.2 rest
      (head.1 :: tail.1, tail.2)

def Node.visit (below : σ → List Node → List Node × σ) (state : σ) : Node → Node × σ
  | .text chars => (.text chars, state)
  | .element root =>
      let seen := visitor state root
      let inner := below seen.2 seen.1.children
      (.element { seen.1 with children := inner.1 }, inner.2)

-- Visits the elements that lie at most `depth` levels below the given nodes.
def Node.visitAll : (depth : Nat) → σ → List Node → List Node × σ
  | 0, state, nodes => (nodes, state)
  | depth + 1, state, nodes => threaded (Node.visit visitor (Node.visitAll depth)) state nodes

def Element.visit (depth : Nat) (state : σ) (root : Element) : Element × σ :=
  let inner := Node.visitAll visitor depth state root.children
  ({ root with children := inner.1 }, inner.2)

end Visit

end CodeFence
