import CodeFence.Engine.Basic
import CodeFence.Log

set_option autoImplicit false

namespace CodeFence

inductive Event
  | asked (request : Request)
  | replaced (count : Nat)
  | dropped (start count : Nat) (fault : Fault)
  | unterminated (start count : Nat)
  | finished (count : Nat)
deriving DecidableEq, Repr

namespace Event

def request? : Event → Option Request
  | asked request => some request
  | _ => none

def heading (slug kind : Text) : Text :=
  "[PREPROCESS] | ".toList ++ slug ++ " | Codeblock | ".toList ++ kind ++ " | ".toList

def entry? (slug : Text) : Event → Option Entry
  | asked _ => none
  | replaced _ => none
  | dropped start count fault =>
      some ⟨.warn, heading slug "Warning".toList ++ "Unable to process at start ".toList ++ decimal start
        ++ " count ".toList ++ decimal count ++ ": ".toList ++ fault.message ++ ". Skipping.".toList⟩
  | unterminated start count =>
      some ⟨.error, heading slug "Error".toList ++ (Fault.unterminatedBlock start count).message ++ ". Aborting.".toList⟩
  | finished count =>
      some ⟨.debug, heading slug "Success".toList ++ "\x7b count: ".toList ++ decimal count ++ " \x7d".toList⟩

end Event

-- The component before the last one of a slashed name, or the whole name if it has no slash.
def documentSlug (id : Text) : Text :=
  match (id.splitOn '/').reverse with
  | _ :: parent :: _ => parent
  | _ => id

end CodeFence
