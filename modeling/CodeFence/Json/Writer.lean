import CodeFence.Json.Basic

set_option autoImplicit false

namespace CodeFence.Json

def lowerHex (n : Nat) : Char :=
  if n < 10 then Char.ofNat ('0'.toNat + n) else Char.ofNat ('a'.toNat + (n - 10))

def escape (c : Char) : Text :=
  match c with
  | '"' => "\\\"".toList
  | '\\' => "\\\\".toList
  | '\x08' => "\\b".toList
  | '\x0c' => "\\f".toList
  | '\n' => "\\n".toList
  | '\r' => "\\r".toList
  | '\t' => "\\t".toList
  | c => if c.toNat < 0x20 then "\\u00".toList ++ [lowerHex (c.toNat / 16), lowerHex (c.toNat % 16)] else [c]

def writeString : Option Text → Text
  | none => "\"\\ud800\"".toList
  | some chars => "\"".toList ++ chars.flatMap escape ++ "\"".toList

mutual
def text : Json → Text
  | null => "null".toList
  | bool true => "true".toList
  | bool false => "false".toList
  | number spelling => spelling
  | string chars => writeString chars
  | array items => "[".toList ++ writeItems items ++ "]".toList
  | object members => "\x7b".toList ++ writeMembers members ++ "\x7d".toList

def writeItems : List Json → Text
  | [] => []
  | [item] => item.text
  | item :: rest => item.text ++ ",".toList ++ writeItems rest

def writeMembers : List (Option Text × Json) → Text
  | [] => []
  | [(name, value)] => writeString name ++ ":".toList ++ value.text
  | (name, value) :: rest => writeString name ++ ":".toList ++ value.text ++ ",".toList ++ writeMembers rest
end

end CodeFence.Json
