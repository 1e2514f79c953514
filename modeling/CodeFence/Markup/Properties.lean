import CodeFence.Markup.Tree
import CodeFence.Text.Blank

set_option autoImplicit false

namespace CodeFence

namespace Properties

def get? (name : Text) : Properties → Option Property
  | [] => none
  | (key, value) :: rest => if key = name then some value else get? name rest

def set (name : Text) (value : Property) : Properties → Properties
  | [] => [(name, value)]
  | (key, old) :: rest => if key = name then (key, value) :: rest else (key, old) :: set name value rest

def erase (name : Text) : Properties → Properties
  | [] => []
  | (key, value) :: rest => if key = name then rest else (key, value) :: erase name rest

def names (properties : Properties) : List Text :=
  properties.map Prod.fst

def hasClass (name : Text) (properties : Properties) : Bool :=
  match properties.get? "class".toList with
  | some (.str classes) => classes.words.contains name
  | _ => false

end Properties

namespace Element

def property? (root : Element) (name : Text) : Option Property :=
  root.properties.get? name

def setProperty (root : Element) (name : Text) (value : Property) : Element :=
  { root with properties := root.properties.set name value }

def eraseProperty (root : Element) (name : Text) : Element :=
  { root with properties := root.properties.erase name }

def removeProperty (root : Element) (name : Text) : Option Property × Element :=
  match root.properties.findIdx? fun entry => entry.1 = name with
  | none => (none, root)
  | some place => (root.properties[place]?.map Prod.snd, { root with properties := root.properties.eraseIdx place })

def hasClass (root : Element) (name : Text) : Bool :=
  root.properties.hasClass name

end Element
end CodeFence
