import CodeFence.LineRange

set_option autoImplicit false

namespace CodeFence

structure Directive where
  code : Text
  lines : List LineRange
deriving DecidableEq, Repr

namespace Directive

def marker : Text := "///".toList

def key : Text := "highlight:".toList

def expandTabs (text : Text) : Text :=
  text.flatMap fun c => if c = '\t' then [' ', ' '] else [c]

def spec? (line : Text) : Option Text :=
  (Text.strip? marker line).bind fun rest => Text.strip? key rest.trimStart

def parse (raw : Text) : Directive :=
  let code := (expandTabs raw).trim
  match Text.cut? ['\n'] code with
  | none => ⟨code, []⟩
  | some (line, rest) =>
      match spec? line with
      | none => ⟨code, []⟩
      | some spec => ⟨rest, LineRange.parseList spec⟩

end Directive
end CodeFence
