import CodeFence.Text.Basic

set_option autoImplicit false

namespace CodeFence

inductive Level
  | error
  | warn
  | info
  | debug
deriving DecidableEq, Repr

def Level.name : Level → Text
  | error => "ERROR".toList
  | warn => "WARN".toList
  | info => "INFO".toList
  | debug => "DEBUG".toList

-- Whether entries of the level are shown when nothing is said about levels.
def Level.shown : Level → Bool
  | debug => false
  | _ => true

structure Entry where
  level : Level
  message : Text
deriving DecidableEq, Repr

def logTarget : Text := "giallo_fence".toList

structure Record where
  level : Level
  target : Text
  message : Text
deriving DecidableEq, Repr

def Entry.toRecord (entry : Entry) : Record :=
  ⟨entry.level, logTarget, entry.message⟩

end CodeFence
