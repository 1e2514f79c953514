import CodeFence.Command.Run
import CodeFence.Engine.Builtin

set_option autoImplicit false

namespace CodeFence.Command

def faultOf : IO.Error → FileFault
  | .noFileOrDirectory _ _ _ => .notFound
  | .alreadyExists _ _ _ => .alreadyExists
  | .inappropriateType _ _ _ => .isADirectory
  | _ => .notFound

def attempt {α : Type} (action : IO α) : IO (Except FileFault α) :=
  try
    return .ok (← action)
  catch cause => return .error (faultOf cause)

def readText (path : String) : IO (Except FileFault Text) := do
  match ← attempt (IO.FS.readBinFile path) with
  | .error cause => return .error cause
  | .ok bytes =>
      match String.fromUTF8? bytes with
      | none => return .error .invalidData
      | some chars => return .ok chars.toList

def machine : System IO where
  read path := readText (String.ofList path)
  createDirectories path := attempt (IO.FS.createDirAll (String.ofList path))
  write path chars := attempt (IO.FS.writeFile (String.ofList path) (String.ofList chars))
  print chars := IO.print (String.ofList chars)
  log entry := IO.eprintln (String.ofList ("[".toList ++ entry.level.name ++ " ".toList ++ entry.toRecord.target
    ++ "] ".toList ++ entry.message))

end CodeFence.Command

def main (args : List String) : IO UInt32 := do
  let builtin := Except.ok CodeFence.Builtin.registry.library
  match ← CodeFence.Command.run CodeFence.Command.machine builtin CodeFence.wordMax (args.map String.toList) with
  | some exit => return exit.code.toUInt32
  | none => throw (IO.userError "a document has more blocks than the bound allows")
