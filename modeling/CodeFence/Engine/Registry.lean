import CodeFence.Engine.Library

set_option autoImplicit false

namespace CodeFence

structure Piece where
  text : Text
  scope : Option Text
deriving DecidableEq, Repr

abbrev Grammar := Text → List Piece

-- The style of a scope; without a color the theme's foreground is used.
structure ScopeStyle where
  color : Option Color := none
  font : FontStyle := {}
deriving DecidableEq, Repr

structure Theme where
  backdrop : Backdrop
  scopes : List (Text × ScopeStyle) := []
deriving DecidableEq, Repr

structure Registry where
  linked : Bool
  grammars : List (Text × Grammar)
  themes : List (Text × Theme)

def Theme.style (theme : Theme) (scope : Option Text) : Style :=
  match scope.bind (theme.scopes.lookup ·) with
  | none => ⟨theme.backdrop.foreground, {}⟩
  | some style => ⟨style.color.getD theme.backdrop.foreground, style.font⟩

def FontStyle.decorates (font : FontStyle) : Bool :=
  font.underline || font.strikethrough

namespace Token

def decorated (token : Token) : Bool :=
  token.style.dark.font.decorates || token.style.light.font.decorates

def blank (token : Token) : Bool :=
  token.text.all isBlank

def ofBlanks (text : Text) : Token :=
  ⟨text, .dual ⟨.rgb 0, {}⟩ ⟨.rgb 0, {}⟩⟩

def after (blanks : Text) (token : Token) : List Token :=
  if blanks.isEmpty then [token]
  else if token.decorated then [ofBlanks blanks, token]
  else [{ token with text := blanks ++ token.text }]

-- Moves blank tokens, save the last of the line, to the token that follows.
def mergeBlanks (blanks : Text) : List Token → List Token
  | [] => []
  | [last] => after blanks last
  | token :: next :: rest =>
      if token.blank then mergeBlanks (blanks ++ token.text) (next :: rest)
      else after blanks token ++ mergeBlanks [] (next :: rest)

end Token

namespace Registry

def unlinked : Text :=
  "grammars are unlinked, call `registry.link_grammars()`".toList

def grammarNotFound (name : Text) : Text :=
  "grammar '".toList ++ name ++ "' not found".toList

def themeNotFound (name : Text) : Text :=
  "theme '".toList ++ name ++ "' not found".toList

def key (name : Text) : Text :=
  name.map Char.toLower

def theme? (registry : Registry) (name : Text) : Except Text Theme :=
  match registry.themes.lookup (key name) with
  | none => .error (themeNotFound (key name))
  | some theme => .ok theme

def tokens (style : Option Text → Themed Style) (grammar : Grammar) (line : Text) : List Token :=
  Token.mergeBlanks [] ((grammar line).map fun piece => ⟨piece.text, style piece.scope⟩)

def codeLines (code : Text) : List Text :=
  if code.isEmpty then [] else (normalizeLineEnds code).lines

def dress (registry : Registry) : Themed Text → Except Text (Themed Theme)
  | .single name => do return .single (← registry.theme? name)
  | .dual light dark => do
      let first ← registry.theme? light
      let second ← registry.theme? dark
      return .dual first second

def highlight (registry : Registry) (code grammar : Text) (theme : Themed Text) : Except Text Highlighted :=
  if !registry.linked then .error unlinked
  else
    match registry.grammars.lookup grammar with
    | none => .error (grammarNotFound grammar)
    | some cut => do
        let dressed ← registry.dress theme
        return ⟨dressed.map Theme.backdrop, (codeLines code).map (tokens (fun scope => dressed.map (Theme.style · scope)) cut)⟩

def library (registry : Registry) : Library where
  linked := registry.linked
  hasGrammar grammar := (registry.grammars.lookup grammar).isSome
  hasTheme theme := (registry.themes.lookup (key theme)).isSome
  highlight := registry.highlight

end Registry
end CodeFence
