import CodeFence.Text.Decimal

set_option autoImplicit false

namespace CodeFence

inductive FileFault
  | notFound
  | invalidData
  | isADirectory
  | notADirectory
  | alreadyExists
deriving DecidableEq, Repr

def FileFault.message : FileFault → Text
  | notFound => "no such file or directory".toList
  | invalidData => "stream did not contain valid UTF-8".toList
  | isADirectory => "is a directory".toList
  | notADirectory => "not a directory".toList
  | alreadyExists => "file exists".toList

inductive Fault
  | emptyInput
  | notAFence
  | unknownLanguage (tag : Text)
  | unterminatedBlock (start count : Nat)
  | highlightEngine (message : Text)
  | file (cause : FileFault) (detail : Text)
  | json (detail : Text)
  | invalidPattern (message : Text)
deriving DecidableEq, Repr

namespace Fault

def message : Fault → Text
  | emptyInput => "code block is empty".toList
  | notAFence => "code block does not start with a fence".toList
  | unknownLanguage tag => "language '".toList ++ tag ++ "' not loaded".toList
  | unterminatedBlock start count =>
      "code block at start ".toList ++ decimal start ++ " (count: ".toList ++ decimal count
        ++ ") has no closing fence".toList
  | highlightEngine message => "highlighting failed: ".toList ++ message
  | file _ detail => "I/O error: ".toList ++ detail
  | json detail => "JSON parsing error: ".toList ++ detail
  | invalidPattern message => "invalid fence pattern: ".toList ++ message

def wrapsCause : Fault → Bool
  | file _ _ => true
  | json _ => true
  | _ => false

def ofFile (cause : FileFault) : Fault :=
  file cause cause.message

end Fault
end CodeFence
