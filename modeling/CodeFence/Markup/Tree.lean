import CodeFence.Text.Basic

set_option autoImplicit false

namespace CodeFence

inductive Property
  | str (chars : Text)
  | int (n : Nat)
  | flag
deriving DecidableEq, Repr

abbrev Properties := List (Text × Property)

mutual
inductive Node
  | text (chars : Text)
  | element (root : Element)

structure Element where
  tag : Text
  properties : Properties
  children : List Node
end

instance : Inhabited Node := ⟨.text []⟩

instance : Inhabited Element := ⟨⟨[], [], []⟩⟩

mutual
def Node.decEq : (a b : Node) → Decidable (a = b)
  | .text c, .text d => if same : c = d then isTrue (by rw [same]) else isFalse (by simp [same])
  | .text _, .element _ => isFalse (by simp)
  | .element _, .text _ => isFalse (by simp)
  | .element ⟨t, p, cs⟩, .element ⟨u, q, ds⟩ =>
      if same : t = u ∧ p = q then
        match Node.decEqAll cs ds with
        | isTrue children => isTrue (by rw [same.1, same.2, children])
        | isFalse children => isFalse (by simp [children])
      else isFalse (by simp only [Node.element.injEq, Element.mk.injEq]; exact fun equal => same ⟨equal.1, equal.2.1⟩)

def Node.decEqAll : (as bs : List Node) → Decidable (as = bs)
  | [], [] => isTrue rfl
  | [], _ :: _ => isFalse (by simp)
  | _ :: _, [] => isFalse (by simp)
  | a :: as, b :: bs =>
      match Node.decEq a b with
      | isTrue head =>
          match Node.decEqAll as bs with
          | isTrue tail => isTrue (by rw [head, tail])
          | isFalse tail => isFalse (by simp [tail])
      | isFalse head => isFalse (by simp [head])
end

instance : DecidableEq Node := Node.decEq

instance : DecidableEq Element := fun a b =>
  decidable_of_iff (Node.element a = Node.element b) (by simp)

mutual
def Node.chars : Node → Text
  | .text chars => chars
  | .element ⟨_, _, children⟩ => Node.allChars children

def Node.allChars : List Node → Text
  | [] => []
  | node :: rest => node.chars ++ Node.allChars rest
end

mutual
def Node.height : Node → Nat
  | .text _ => 0
  | .element ⟨_, _, children⟩ => Node.maxHeight children + 1

def Node.maxHeight : List Node → Nat
  | [] => 0
  | node :: rest => max node.height (Node.maxHeight rest)
end

namespace Element

def new (tag : Text) : Element :=
  ⟨tag, [], []⟩

def chars (root : Element) : Text :=
  Node.allChars root.children

def height (root : Element) : Nat :=
  (Node.element root).height

def withChild (root : Element) (child : Node) : Element :=
  { root with children := root.children ++ [child] }

-- Changes the element that a list of child positions leads to; a way that ends at no element changes nothing.
def modifyAt (change : Element → Element) : List Nat → Element → Element
  | [], root => change root
  | position :: way, root =>
      { root with children := root.children.modify position fun
          | .text chars => .text chars
          | .element child => .element (modifyAt change way child) }

def at? : List Nat → Element → Option Element
  | [], root => some root
  | position :: way, root =>
      match root.children[position]? with
      | some (.element child) => at? way child
      | _ => none

end Element
end CodeFence
