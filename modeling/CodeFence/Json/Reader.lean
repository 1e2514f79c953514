import CodeFence.Json.Basic

set_option autoImplicit false

namespace CodeFence.Json

def isSpace (c : Char) : Bool :=
  c == ' ' || c == '\t' || c == '\n' || c == '\r'

def skipSpace (text : Text) : Text :=
  text.dropWhile isSpace

inductive Unit16
  | char (c : Char)
  | code (n : Nat)
deriving DecidableEq, Repr

def highSurrogate (n : Nat) : Bool :=
  0xd800 ≤ n && n < 0xdc00

def lowSurrogate (n : Nat) : Bool :=
  0xdc00 ≤ n && n < 0xe000

-- The text of the units of a string, when surrogates come in pairs only.
def assemble : List Unit16 → Option Text
  | [] => some []
  | .char c :: rest => (assemble rest).map (c :: ·)
  | .code n :: .code m :: rest =>
      if highSurrogate n then
        if lowSurrogate m then
          (assemble rest).map (Char.ofNat (0x10000 + (n - 0xd800) * 0x400 + (m - 0xdc00)) :: ·)
        else none
      else if lowSurrogate n then none
      else (assemble (.code m :: rest)).map (Char.ofNat n :: ·)
  | .code n :: rest =>
      if highSurrogate n || lowSurrogate n then none else (assemble rest).map (Char.ofNat n :: ·)

def hexValue? (c : Char) : Option Nat :=
  if '0' ≤ c && c ≤ '9' then some (c.toNat - '0'.toNat)
  else if 'a' ≤ c && c ≤ 'f' then some (c.toNat - 'a'.toNat + 10)
  else if 'A' ≤ c && c ≤ 'F' then some (c.toNat - 'A'.toNat + 10)
  else none

def hexNumber? (digits : Text) : Option Nat :=
  digits.foldl (fun high c => high.bind fun n => (hexValue? c).map (16 * n + ·)) (some 0)

def escaped? (c : Char) : Option Char :=
  match c with
  | '"' => some '"'
  | '\\' => some '\\'
  | '/' => some '/'
  | 'b' => some '\x08'
  | 'f' => some '\x0c'
  | 'n' => some '\n'
  | 'r' => some '\r'
  | 't' => some '\t'
  | _ => none

def units : Text → Option (List Unit16 × Text)
  | [] => none
  | '"' :: rest => some ([], rest)
  | '\\' :: 'u' :: a :: b :: c :: d :: rest => do
      let n ← hexNumber? [a, b, c, d]
      let (tail, behind) ← units rest
      return (.code n :: tail, behind)
  | '\\' :: e :: rest => do
      let c ← escaped? e
      let (tail, behind) ← units rest
      return (.char c :: tail, behind)
  | c :: rest => do
      guard (0x20 ≤ c.toNat && c != '\\')
      let (tail, behind) ← units rest
      return (.char c :: tail, behind)

def readString (text : Text) : Option (Option Text × Text) :=
  (units text).map fun (parts, behind) => (assemble parts, behind)

def readDigits (text : Text) : Option (Text × Text) :=
  match text.span Char.isDigit with
  | ([], _) => none
  | (digits, behind) => some (digits, behind)

def readWhole (text : Text) : Option (Text × Text) :=
  (readDigits text).filter fun (digits, _) => digits.head? != some '0' || digits.length == 1

def readFraction : Text → Option (Text × Text)
  | '.' :: rest => (readDigits rest).map fun (digits, behind) => ('.' :: digits, behind)
  | rest => some ([], rest)

def readSign : Text → Text × Text
  | '-' :: rest => (['-'], rest)
  | '+' :: rest => (['+'], rest)
  | rest => ([], rest)

def readExponent : Text → Option (Text × Text)
  | [] => some ([], [])
  | c :: rest =>
      if c = 'e' ∨ c = 'E' then
        let (sign, more) := readSign rest
        (readDigits more).map fun (digits, behind) => (c :: sign ++ digits, behind)
      else some ([], c :: rest)

def readNumber (text : Text) : Option (Text × Text) := do
  let (sign, unsigned) := match text with
    | '-' :: rest => (['-'], rest)
    | rest => ([], rest)
  let (whole, afterWhole) ← readWhole unsigned
  let (fraction, afterFraction) ← readFraction afterWhole
  let (exponent, behind) ← readExponent afterFraction
  return (sign ++ whole ++ fraction ++ exponent, behind)

def words : List (Text × Json) :=
  [("null".toList, null), ("true".toList, bool true), ("false".toList, bool false)]

def readWord (text : Text) : Option (Json × Text) :=
  words.findSome? fun word => (Text.strip? word.1 text).map fun behind => (word.2, behind)

mutual
def readValue : (bound : Nat) → Text → Option (Json × Text)
  | 0, _ => none
  | bound + 1, text =>
      match skipSpace text with
      | '"' :: rest => (readString rest).map fun (chars, behind) => (string chars, behind)
      | '[' :: rest =>
          match skipSpace rest with
          | ']' :: behind => some (array [], behind)
          | more => (readItems bound more).map fun (items, behind) => (array items, behind)
      | '\x7b' :: rest =>
          match skipSpace rest with
          | '\x7d' :: behind => some (object [], behind)
          | more => (readMembers bound more).map fun (members, behind) => (object members, behind)
      | other => (readWord other).orElse fun _ => (readNumber other).map fun (spelling, behind) => (number spelling, behind)

def readItems : (bound : Nat) → Text → Option (List Json × Text)
  | 0, _ => none
  | bound + 1, text => do
      let (item, rest) ← readValue bound text
      match skipSpace rest with
      | ']' :: behind => return ([item], behind)
      | ',' :: more =>
          let (items, behind) ← readItems bound more
          return (item :: items, behind)
      | _ => none

def readMembers : (bound : Nat) → Text → Option (List (Option Text × Json) × Text)
  | 0, _ => none
  | bound + 1, text =>
      match skipSpace text with
      | '"' :: quoted => do
          let (name, afterName) ← readString quoted
          match skipSpace afterName with
          | ':' :: valued =>
              let (value, rest) ← readValue bound valued
              match skipSpace rest with
              | '\x7d' :: behind => return ([(name, value)], behind)
              | ',' :: more =>
                  let (members, behind) ← readMembers bound more
                  return ((name, value) :: members, behind)
              | _ => none
          | _ => none
      | _ => none
end

def parse? (text : Text) : Option Json := do
  let (value, rest) ← readValue (2 * text.length + 1) text
  guard (skipSpace rest).isEmpty
  return value

end CodeFence.Json
