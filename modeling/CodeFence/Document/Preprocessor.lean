import CodeFence.Document.Run
import CodeFence.Text.Quoted

set_option autoImplicit false

namespace CodeFence

structure Preprocessor where
  highlighter : Highlighter
  passes : List Family := Family.defaultPasses
  include? : Option (Text → Bool) := none
  logged : Bool := false

inductive Outcome
  | excluded
  | processed (report : Report)
deriving DecidableEq, Repr

namespace Outcome

def markup? : Outcome → Option Text
  | excluded => none
  | processed report => some report.content

def report? : Outcome → Option Report
  | excluded => none
  | processed report => some report

end Outcome

namespace Preprocessor

def includes (preprocessor : Preprocessor) (id : Text) : Bool :=
  match preprocessor.include? with
  | none => true
  | some accepts => accepts id

def start (preprocessor : Preprocessor) (content id : Text) : Report :=
  { content, slug? := if preprocessor.logged then some (documentSlug id) else none }

-- Processes a document, whether it is meant or not; `earlier` counts the engine's requests so far.
def run (preprocessor : Preprocessor) (bound earlier : Nat) (content id : Text) : Option Report :=
  preprocessor.highlighter.passes earlier bound preprocessor.passes (preprocessor.start content id)

def submit (preprocessor : Preprocessor) (bound earlier : Nat) (content id : Text) : Option Outcome :=
  if preprocessor.includes id then (preprocessor.run bound earlier content id).map .processed else some .excluded

def familyName : Family → Text
  | .backtick => "Backtick".toList
  | .tilde => "Tilde".toList

def truth (b : Bool) : Text :=
  if b then "true".toList else "false".toList

def summary (preprocessor : Preprocessor) : Text :=
  "Preprocessor \x7b themes: ThemePair \x7b dark: ".toList ++ preprocessor.highlighter.themes.dark.quoted
    ++ ", light: ".toList ++ preprocessor.highlighter.themes.light.quoted
    ++ " \x7d, passes: [".toList ++ ", ".toList.intercalate (preprocessor.passes.map familyName)
    ++ "], include: ".toList ++ truth preprocessor.include?.isSome
    ++ ", logger: ".toList ++ truth preprocessor.logged ++ " \x7d".toList

end Preprocessor
end CodeFence
