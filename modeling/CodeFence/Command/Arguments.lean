import CodeFence.Text.Basic

set_option autoImplicit false

namespace CodeFence.Command

inductive Switch
  | config
  | extension
  | outDir
  | stylesheet
  | help
  | version
deriving DecidableEq, Repr

namespace Switch

def takesValue : Switch → Bool
  | config => true
  | extension => true
  | outDir => true
  | _ => false

def longNames : List (Text × Switch) :=
  [("config".toList, config), ("ext".toList, extension), ("out-dir".toList, outDir),
    ("stylesheet".toList, stylesheet), ("help".toList, help), ("version".toList, version)]

def ofLetter? : Char → Option Switch
  | 'c' => some config
  | 'o' => some outDir
  | 'h' => some help
  | 'V' => some version
  | _ => none

end Switch

inductive Argument
  | free (chars : Text)
  | switch (switch : Switch) (attached : Option Text)
  | unknown
  | escape
deriving DecidableEq, Repr

namespace Argument

def long (body : Text) : Argument :=
  match Text.cut? ['='] body with
  | none => (Switch.longNames.lookup body).elim .unknown fun found => .switch found none
  | some (name, value) => (Switch.longNames.lookup name).elim .unknown fun found => .switch found (some value)

-- A run of letters behind one hyphen; the first that takes a value takes all that follows.
def short : Text → List Argument
  | [] => []
  | letter :: rest =>
      match Switch.ofLetter? letter with
      | none => [.unknown]
      | some found =>
          if found.takesValue then
            match rest with
            | [] => [.switch found none]
            | '=' :: value => [.switch found (some value)]
            | value => [.switch found (some value)]
          else .switch found none :: short rest

def classify : List Text → List Argument
  | [] => []
  | arg :: rest =>
      match arg with
      | ['-', '-'] => .escape :: rest.map .free
      | '-' :: '-' :: body => long body :: classify rest
      | ['-'] => .free arg :: classify rest
      | '-' :: letters => short letters ++ classify rest
      | _ => .free arg :: classify rest

end Argument

structure Arguments where
  files : List Text := []
  config? : Option Text := none
  extensions : List Text := []
  outDir? : Option Text := none
  stylesheet : Bool := false
deriving DecidableEq, Repr

inductive Usage
  | run (arguments : Arguments)
  | help
  | version
  | wrong
deriving DecidableEq, Repr

namespace Arguments

def accepted (arguments : Arguments) : List Text :=
  if arguments.extensions.isEmpty then ["md".toList, "svx".toList] else arguments.extensions

def addFile (given : Arguments) (path : Text) : Option Arguments :=
  if path.isEmpty then none else some { given with files := given.files ++ [path] }

-- Gives a value to an option. Paths are not empty, and only extensions may be given again.
def setValue (given : Arguments) (value : Text) : Switch → Option Arguments
  | .config => if value.isEmpty || given.config?.isSome then none else some { given with config? := some value }
  | .outDir => if value.isEmpty || given.outDir?.isSome then none else some { given with outDir? := some value }
  | .extension => some { given with extensions := given.extensions ++ [value] }
  | _ => none

def read (given : Arguments) : List Argument → Usage
  | [] => .run given
  | .unknown :: _ => .wrong
  | .escape :: rest => given.read rest
  | .free path :: rest =>
      match given.addFile path with
      | none => .wrong
      | some next => next.read rest
  | .switch found (some value) :: rest =>
      match given.setValue value found with
      | none => .wrong
      | some next => next.read rest
  | .switch .help none :: _ => .help
  | .switch .version none :: _ => .version
  | .switch .stylesheet none :: rest =>
      if given.stylesheet then .wrong else { given with stylesheet := true }.read rest
  | .switch found none :: .free value :: rest =>
      match given.setValue value found with
      | none => .wrong
      | some next => next.read rest
  | .switch _ none :: _ => .wrong

end Arguments

def usage (args : List Text) : Usage :=
  ({} : Arguments).read (Argument.classify args)

def versionText : Text :=
  "giallo-fence 0.1.0\n".toList

def helpText : Text :=
  ("Replace fenced code blocks in documents with highlighted HTML\n\n"
    ++ "Usage: giallo-fence [OPTIONS] [FILES]...\n\n"
    ++ "Arguments:\n  [FILES]...  Documents to process\n\n"
    ++ "Options:\n"
    ++ "  -c, --config <CONFIG>    JSON config file\n"
    ++ "      --ext <EXTENSIONS>   Only process files with one of these extensions [default: md svx]\n"
    ++ "  -o, --out-dir <OUT_DIR>  Write processed files in this directory instead of printing them\n"
    ++ "      --stylesheet         Print the CSS switching between the two themes and exit\n"
    ++ "  -h, --help               Print help\n"
    ++ "  -V, --version            Print version\n").toList

end CodeFence.Command
