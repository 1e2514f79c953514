import CodeFence.Fault
import CodeFence.Language
import CodeFence.Markup.Tree
import CodeFence.Theme

set_option autoImplicit false

namespace CodeFence

structure Request where
  code : Text
  language : Language
  themes : ThemePair
  stem : Text
deriving DecidableEq, Repr

inductive Answer
  | tree (root : Element)
  | failure (fault : Fault)
  | crash (message : Option Text)
deriving DecidableEq

-- The answer to a request, given the number of requests before it.
abbrev Engine := Nat → Request → Answer

def Answer.settle : Answer → Except Fault Element
  | tree root => .ok root
  | failure fault => .error fault
  | crash message => .error (.highlightEngine (message.getD "Unable to highlight".toList))

-- What a call came to, and the requests that the engine had for it.
structure Call (α : Type) where
  asked : List Request
  result : Except Fault α

def Call.map {α β : Type} (make : α → β) (call : Call α) : Call β :=
  ⟨call.asked, call.result.map make⟩

namespace Engine

def Steady (engine : Engine) : Prop :=
  ∀ a b request, engine a request = engine b request

def answering (answer : Answer) (on : Language → Bool) (otherwise : Engine) : Engine :=
  fun earlier request => if on request.language then answer else otherwise earlier request

end Engine
end CodeFence
