import CodeFence.Text.Basic

set_option autoImplicit false

namespace CodeFence.Path

def components (path : Text) : List Text :=
  path.splitOn '/'

def absolute (path : Text) : Bool :=
  path.head? == some '/'

def named (component : Text) : Bool :=
  component != [] && component != ['.']

def fileName? (path : Text) : Option Text :=
  ((components path).filter named).getLast?.filter (· ≠ ['.', '.'])

-- What follows the last dot of the file name; a dot at its start does not count.
def extension? (path : Text) : Option Text :=
  (fileName? path).bind fun name =>
    match (name.splitOn '.').reverse with
    | last :: second :: more => if more = [] ∧ second = [] then none else some last
    | _ => none

def join (directory name : Text) : Text :=
  if directory = [] ∨ directory.getLast? = some '/' then directory ++ name else directory ++ '/' :: name

end CodeFence.Path
