import CodeFence.Command.Path
import CodeFence.Fault

set_option autoImplicit false

namespace CodeFence

abbrev Place := List Text

inductive Item
  | directory
  | file (chars : Text)
  | undecodable
deriving DecidableEq, Repr

structure Files where
  items : List (Place × Item)
  workplace : Place
deriving DecidableEq, Repr

namespace Files

def at? (files : Files) (place : Place) : Option Item :=
  if place = [] then some .directory else files.items.lookup place

def put (files : Files) (place : Place) (item : Item) : Files :=
  { files with items := (place, item) :: files.items.filter (·.1 ≠ place) }

def enter (files : Files) (place : Place) : Except FileFault Unit :=
  match files.at? place with
  | none => .error .notFound
  | some .directory => .ok ()
  | some _ => .error .notADirectory

def walk (files : Files) (place : Place) : List Text → Except FileFault Place
  | [] => .ok place
  | component :: rest => do
      files.enter place
      if component = [] ∨ component = ['.'] then files.walk place rest
      else if component = ['.', '.'] then files.walk place.dropLast rest
      else files.walk (place ++ [component]) rest

def start (files : Files) (path : Text) : Place :=
  if Path.absolute path then [] else files.workplace

def resolve (files : Files) (path : Text) : Except FileFault Place :=
  if path = [] then .error .notFound else files.walk (files.start path) (Path.components path)

def read (files : Files) (path : Text) : Except FileFault Text := do
  let place ← files.resolve path
  match files.at? place with
  | none => .error .notFound
  | some .directory => .error .isADirectory
  | some .undecodable => .error .invalidData
  | some (.file chars) => .ok chars

def write (files : Files) (path chars : Text) : Except FileFault Files := do
  let place ← files.resolve path
  match files.at? place with
  | some .directory => .error .isADirectory
  | _ => .ok (files.put place (.file chars))

def create (files : Files) (place : Place) : List Text → Except FileFault Files
  | [] => .ok files
  | component :: rest =>
      if component = [] ∨ component = ['.'] then files.create place rest
      else if component = ['.', '.'] then files.create place.dropLast rest
      else
        let next := place ++ [component]
        match files.at? next with
        | none => (files.put next .directory).create next rest
        | some .directory => files.create next rest
        | some _ => .error .alreadyExists

def isDirectory (files : Files) (path : Text) : Bool :=
  match files.resolve path with
  | .ok place => files.at? place == some .directory
  | .error _ => false

-- Whether the path ends with a dot for a directory that is only to be created.
def endsAtDot (path : Text) : Bool :=
  ((Path.components path).filter (· ≠ [])).getLast? == some ['.']

def createDirectories (files : Files) (path : Text) : Except FileFault Files :=
  if path = [] ∨ files.isDirectory path then .ok files
  else if endsAtDot path then .error .notFound
  else files.create (files.start path) (Path.components path)

end Files
end CodeFence
