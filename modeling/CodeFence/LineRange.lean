import CodeFence.Text.Blank
import CodeFence.Text.Decimal

set_option autoImplicit false

namespace CodeFence

structure LineRange where
  first : Nat
  last : Nat
deriving DecidableEq, Repr

namespace LineRange

def contains (range : LineRange) (line : Nat) : Bool :=
  range.first ≤ line && line ≤ range.last

def nonempty (range : LineRange) : Bool :=
  range.first ≤ range.last

-- A number, or two numbers with a hyphen between them; a second hyphen ends what is read.
def parse? (piece : Text) : Option LineRange :=
  match piece.splitOn '-' with
  | [] => none
  | [single] => (numeral? single).map fun line => ⟨line, line⟩
  | first :: last :: _ => (numeral? first).bind fun low => (numeral? last).map fun high => ⟨low, high⟩

-- What a piece of a list holds besides noise.
def signs (piece : Text) : Text :=
  piece.trim.filter fun c => c.isDigit || c == '-'

def parseList (spec : Text) : List LineRange :=
  (spec.splitOn ',').filterMap fun piece => (parse? (signs piece)).filter nonempty

def write (range : LineRange) : Text :=
  if range.first = range.last then decimal range.first else decimal range.first ++ '-' :: decimal range.last

def writeList (ranges : List LineRange) : Text :=
  [','].intercalate (ranges.map write)

def covers (ranges : List LineRange) (line : Nat) : Bool :=
  ranges.any fun range => range.contains line

end LineRange
end CodeFence
