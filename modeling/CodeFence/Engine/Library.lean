import CodeFence.Engine.Tokens
import CodeFence.Text.Substitute

set_option autoImplicit false

namespace CodeFence

def normalizeLineEnds (code : Text) : Text :=
  code.substitute [("\r\n".toList, "\n".toList), ("\r".toList, "\n".toList)]

structure Highlighted where
  theme : Themed Backdrop
  lines : List (List Token)
deriving DecidableEq, Repr

def Highlighted.tree (request : Request) (result : Highlighted) : Element :=
  blockElement "giallo".toList (styleText (blockDeclarations request.stem request.themes result.theme.dark result.theme.light))
    (result.lines.map fun line => line.map (Token.styled request.stem request.themes))

-- A highlighting library. What it makes of a code, with a grammar and themes that are named, it decides for itself.
structure Library where
  linked : Bool
  hasGrammar : Text → Bool
  hasTheme : Text → Bool
  highlight : (code grammar : Text) → (theme : Themed Text) → Except Text Highlighted

namespace Library

def highlighted (library : Library) (request : Request) : Except Text Highlighted :=
  library.highlight request.code request.language.grammar (.dual request.themes.light request.themes.dark)

def answer (library : Library) (request : Request) : Answer :=
  match library.highlighted request with
  | .error message => .failure (.highlightEngine message)
  | .ok result =>
      match result.theme with
      | .single _ => .failure (.highlightEngine "expected both a light and a dark theme".toList)
      | .dual _ _ => .tree (result.tree request)

def engine (library : Library) : Engine := fun _ request => library.answer request

end Library
end CodeFence
