import CodeFence.Text.Basic

set_option autoImplicit false

namespace CodeFence

inductive Json
  | null
  | bool (b : Bool)
  | number (spelling : Text)
  | string (chars : Option Text)
  | array (items : List Json)
  | object (members : List (Option Text × Json))

instance : Inhabited Json := ⟨.null⟩

namespace Json

def text? : Json → Option Text
  | string chars => chars
  | _ => none

-- The name of a choice that carries nothing: a string, or an object that gives the name null.
def choice? : Json → Option Text
  | string chars => chars
  | object [(name, null)] => name
  | _ => none

end Json
end CodeFence
