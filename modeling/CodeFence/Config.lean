import CodeFence.Document.Preprocessor
import CodeFence.Engine.Library
import CodeFence.Json.Reader
import CodeFence.Json.Writer

set_option autoImplicit false

namespace CodeFence

structure Config where
  themes : ThemePair := {}
  stem : Text := defaultStem
  wrapperClass : Text := "code-wrapper".toList
  passes : List Family := Family.defaultPasses
deriving DecidableEq, Repr

namespace Json

-- A field of an object: its default when it is missing, nothing when it stands twice or is refused.
def field {α : Type} (members : List (Option Text × Json)) (name : Text) (default : α) (read : Json → Option α) : Option α :=
  match members.filter (fun member => member.1 = some name) with
  | [] => some default
  | [member] => read member.2
  | _ => none

def item {α : Type} (items : List Json) (position : Nat) (default : α) (read : Json → Option α) : Option α :=
  match items[position]? with
  | none => some default
  | some value => read value

def namesAreTexts (members : List (Option Text × Json)) : Bool :=
  members.all fun member => member.1.isSome

def list? {α : Type} (read : Json → Option α) : Json → Option (List α)
  | array items => items.mapM read
  | _ => none

end Json

def Language.ofJson? (json : Json) : Option Language :=
  json.choice?.bind Language.ofTag?

def Language.toJson (language : Language) : Json :=
  .string (some language.tag)

def Family.ofName? (name : Text) : Option Family :=
  Family.all.find? fun family => family.name = name

def Family.ofJson? (json : Json) : Option Family :=
  json.choice?.bind Family.ofName?

def Family.toJson (family : Family) : Json :=
  .string (some family.name)

namespace ThemePair

def ofJson? : Json → Option ThemePair
  | .object members => do
      guard (Json.namesAreTexts members)
      let dark ← Json.field members "dark".toList ({} : ThemePair).dark Json.text?
      let light ← Json.field members "light".toList ({} : ThemePair).light Json.text?
      return { dark, light }
  | .array items => do
      guard (items.length ≤ 2)
      let dark ← Json.item items 0 ({} : ThemePair).dark Json.text?
      let light ← Json.item items 1 ({} : ThemePair).light Json.text?
      return { dark, light }
  | _ => none

def toJson (themes : ThemePair) : Json :=
  .object [(some "dark".toList, .string (some themes.dark)), (some "light".toList, .string (some themes.light))]

end ThemePair

namespace Config

def ofJson? : Json → Option Config
  | .object members => do
      guard (Json.namesAreTexts members)
      let themes ← Json.field members "themes".toList {} ThemePair.ofJson?
      let stem ← Json.field members "css_variable_prefix".toList defaultStem Json.text?
      let wrapperClass ← Json.field members "wrapper_class".toList ({} : Config).wrapperClass Json.text?
      let passes ← Json.field members "passes".toList Family.defaultPasses (Json.list? Family.ofJson?)
      return { themes, stem, wrapperClass, passes }
  | .array items => do
      guard (items.length ≤ 4)
      let themes ← Json.item items 0 {} ThemePair.ofJson?
      let stem ← Json.item items 1 defaultStem Json.text?
      let wrapperClass ← Json.item items 2 ({} : Config).wrapperClass Json.text?
      let passes ← Json.item items 3 Family.defaultPasses (Json.list? Family.ofJson?)
      return { themes, stem, wrapperClass, passes }
  | _ => none

def toJson (config : Config) : Json :=
  .object
    [(some "themes".toList, config.themes.toJson), (some "css_variable_prefix".toList, .string (some config.stem)),
      (some "wrapper_class".toList, .string (some config.wrapperClass)),
      (some "passes".toList, .array (config.passes.map Family.toJson))]

end Config

def Json.decode {α : Type} (read : Json → Option α) (text : Text) : Except Fault α :=
  match Json.parse? text with
  | none => .error (.json "the text is no JSON value".toList)
  | some json =>
      match read json with
      | none => .error (.json "the value has another shape than expected".toList)
      | some value => .ok value

namespace Config

def parse (text : Text) : Except Fault Config :=
  Json.decode ofJson? text

def text (config : Config) : Text :=
  config.toJson.text

def highlighter (config : Config) (engine : Engine) : Highlighter :=
  { engine, themes := config.themes, stem := config.stem, wrapperClass := config.wrapperClass }

def preprocessor (config : Config) (engine : Engine) : Preprocessor :=
  { highlighter := config.highlighter engine, passes := config.passes }

-- `builtin` is what loading the library with all its grammars and themes gives.
def buildPreprocessor (config : Config) (builtin : Except Fault Library) : Except Fault Preprocessor :=
  builtin.map fun library => config.preprocessor library.engine

end Config
end CodeFence
