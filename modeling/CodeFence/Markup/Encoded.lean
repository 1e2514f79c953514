import CodeFence.Markup.Entity

set_option autoImplicit false

namespace CodeFence

namespace Text

def encoded (text : Text) : List UInt8 :=
  text.flatMap String.utf8EncodeChar

theorem encoded_append (a b : Text) : encoded (a ++ b) = encoded a ++ encoded b :=
  List.flatMap_append

end Text

namespace Encoded

inductive Part
  | slice (first past : Nat)
  | entity (chars : Text)
deriving DecidableEq, Repr

def entity? (byte : UInt8) : Option Text :=
  if byte = 0x3e then some "&gt;".toList
  else if byte = 0x3c then some "&lt;".toList
  else if byte = 0x26 then some "&amp;".toList
  else if byte = 0x27 then some "&#39;".toList
  else if byte = 0x22 then some "&quot;".toList
  else none

-- The parts from an offset on; `last` is where the run that is still to be cut began.
def parts (last offset : Nat) : List UInt8 → List Part
  | [] => if last < offset then [.slice last offset] else []
  | byte :: rest =>
      match entity? byte with
      | some chars => .slice last offset :: .entity chars :: parts (offset + 1) (offset + 1) rest
      | none => parts last (offset + 1) rest

def Part.bytes (input : List UInt8) : Part → List UInt8
  | slice first past => (input.drop first).take (past - first)
  | entity chars => chars.encoded

def escape (input : List UInt8) : List UInt8 :=
  (parts 0 0 input).flatMap (Part.bytes input)

def Boundary (text : Text) (offset : Nat) : Prop :=
  ∃ before behind, text = before ++ behind ∧ offset = before.encoded.length

end Encoded
end CodeFence
