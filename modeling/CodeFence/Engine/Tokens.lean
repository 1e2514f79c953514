import CodeFence.Engine.Basic
import CodeFence.Markup.Numbered

set_option autoImplicit false

namespace CodeFence

structure Color where
  red : UInt8
  green : UInt8
  blue : UInt8
  alpha : UInt8 := 255
deriving DecidableEq, Repr

namespace Color

def hexDigit (n : Nat) : Char :=
  if n < 10 then Char.ofNat ('0'.toNat + n) else Char.ofNat ('A'.toNat + (n - 10))

def hexPair (channel : UInt8) : Text :=
  [hexDigit (channel.toNat / 16), hexDigit (channel.toNat % 16)]

def hex (color : Color) : Text :=
  '#' :: (hexPair color.red ++ hexPair color.green ++ hexPair color.blue
    ++ if color.alpha = 255 then [] else hexPair color.alpha)

def rgb (code : Nat) : Color :=
  ⟨(code / 65536).toUInt8, (code / 256).toUInt8, code.toUInt8, 255⟩

def rgba (code : Nat) : Color :=
  { rgb (code / 256) with alpha := code.toUInt8 }

end Color

structure FontStyle where
  italic : Bool := false
  bold : Bool := false
  underline : Bool := false
  strikethrough : Bool := false
deriving DecidableEq, Repr

structure Style where
  color : Color
  font : FontStyle := {}
deriving DecidableEq, Repr

inductive Themed (α : Type)
  | single (value : α)
  | dual (light dark : α)
deriving DecidableEq, Repr

namespace Themed

variable {α β : Type}

def map (make : α → β) : Themed α → Themed β
  | single value => single (make value)
  | dual light dark => dual (make light) (make dark)

def dark : Themed α → α
  | single value => value
  | dual _ dark => dark

def light : Themed α → α
  | single value => value
  | dual light _ => light

end Themed

structure Token where
  text : Text
  style : Themed Style
deriving DecidableEq, Repr

structure Backdrop where
  foreground : Color
  background : Color
deriving DecidableEq, Repr

structure Declaration where
  name : Text
  value : Text
deriving DecidableEq, Repr

def Declaration.text (declaration : Declaration) : Text :=
  declaration.name ++ ":".toList ++ declaration.value

def styleText (declarations : List Declaration) : Text :=
  ";".toList.intercalate (declarations.map Declaration.text)

def colorDeclarations (stem : Text) (themes : ThemePair) (suffix dark light : Text) : List Declaration :=
  [⟨stem ++ themes.dark ++ suffix, dark⟩, ⟨stem ++ themes.light ++ suffix, light⟩]

-- A strike through is not declared.
def FontStyle.declarations (stem theme : Text) (font : FontStyle) : List Declaration :=
  (if font.italic then [⟨stem ++ theme ++ "-font-style".toList, "italic".toList⟩] else [])
    ++ (if font.bold then [⟨stem ++ theme ++ "-font-weight".toList, "bold".toList⟩] else [])
    ++ (if font.underline then [⟨stem ++ theme ++ "-text-decoration".toList, "underline".toList⟩] else [])

def Token.declarations (stem : Text) (themes : ThemePair) (token : Token) : List Declaration :=
  colorDeclarations stem themes [] token.style.dark.color.hex token.style.light.color.hex
    ++ token.style.dark.font.declarations stem themes.dark ++ token.style.light.font.declarations stem themes.light

def blockDeclarations (stem : Text) (themes : ThemePair) (dark light : Backdrop) : List Declaration :=
  colorDeclarations stem themes [] dark.foreground.hex light.foreground.hex
    ++ colorDeclarations stem themes "-bg".toList dark.background.hex light.background.hex

structure Styled where
  text : Text
  style : Text
deriving DecidableEq, Repr

def Token.styled (stem : Text) (themes : ThemePair) (token : Token) : Styled :=
  ⟨token.text, styleText (token.declarations stem themes)⟩

def Styled.element (piece : Styled) : Element :=
  ⟨"span".toList, [("style".toList, .str piece.style)], [.text piece.text]⟩

def lineElement (pieces : List Styled) : Element :=
  ⟨"span".toList, [("class".toList, .str lineClass)], pieces.map fun piece => .element piece.element⟩

def codeElement (lines : List (List Styled)) : Element :=
  ⟨"code".toList, [], (lines.map fun pieces => Node.element (lineElement pieces)).intersperse (.text ['\n'])⟩

def blockElement (className style : Text) (lines : List (List Styled)) : Element :=
  ⟨"pre".toList,
    [("class".toList, .str className), ("style".toList, .str style), ("tabindex".toList, .str "0".toList)],
    [.element (codeElement lines)]⟩

end CodeFence
