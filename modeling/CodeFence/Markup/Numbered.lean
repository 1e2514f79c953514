import CodeFence.LineRange
import CodeFence.Markup.Properties
import CodeFence.Markup.Visit

set_option autoImplicit false

namespace CodeFence

def lineClass : Text := "line".toList

def lineNumber : Text := "data-line".toList

def lineHighlighted : Text := "data-line-highlighted".toList

def Properties.number (ranges : List LineRange) (line : Nat) (properties : Properties) : Properties :=
  let numbered := (properties.erase "class".toList).set lineNumber (.int line)
  if LineRange.covers ranges line then numbered.set lineHighlighted .flag else numbered

def numberLine (ranges : List LineRange) (line : Nat) (_tag : Text) (properties : Properties) : Properties × Nat :=
  if properties.hasClass lineClass then (properties.number ranges line, line + 1) else (properties, line)

def Element.numberLines (ranges : List LineRange) (block : Element) : Element :=
  (((block.eraseProperty "class".toList).eraseProperty "tabindex".toList).annotate (numberLine ranges) 1).1

theorem Element.numberLines_chars (ranges : List LineRange) (block : Element) :
    (block.numberLines ranges).chars = block.chars :=
  Element.annotate_chars _ _ _

end CodeFence
