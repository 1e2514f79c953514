import CodeFence.Engine.Registry

set_option autoImplicit false

namespace CodeFence.Sample

def lower (c : Char) : Bool :=
  'a' ≤ c && c ≤ 'z'

def enclosed? (mark : Char) (allowed : Char → Bool) : Text → Option Text
  | [] => none
  | c :: rest =>
      if c = mark then
        match rest.span allowed with
        | (inner, d :: _) => if d = mark then some (mark :: inner ++ [mark]) else none
        | (_, []) => none
      else none

def run? (allowed : Char → Bool) (text : Text) : Option Text :=
  match text.takeWhile allowed with
  | [] => none
  | run => some run

def handle? : Text → Option Text
  | '@' :: rest => (run? lower rest).map ('@' :: ·)
  | _ => none

def patterns : List (Text × (Text → Option Text)) :=
  [("numeric".toList, run? Char.isDigit), ("string".toList, enclosed? '"' (· != '"')), ("at".toList, handle?),
    ("bang".toList, run? (· == '!')), ("strike".toList, run? (· == '~')),
    ("under".toList, enclosed? '_' fun c => c == ' ' || lower c)]

def match? (text : Text) : Option Piece :=
  patterns.findSome? fun pattern => (pattern.2 text).map fun found => ⟨found, some pattern.1⟩

def gap : Text → List Piece
  | [] => []
  | between => [⟨between, none⟩]

-- Cuts a line into pieces; `between` is what was read since the last match.
def cut : (bound : Nat) → (between line : Text) → List Piece
  | _, between, [] => gap between
  | 0, between, line => gap (between ++ line)
  | bound + 1, between, c :: rest =>
      match match? (c :: rest) with
      | some piece => gap between ++ piece :: cut bound [] ((c :: rest).drop piece.text.length)
      | none => cut bound (between ++ [c]) rest

def grammar : Grammar := fun line => cut line.length [] line

def dark : Theme where
  backdrop := ⟨.rgb 0xE0E0E0, .rgb 0x101010⟩
  scopes :=
    [("numeric".toList, { color := some (.rgb 0xFFAA00) }),
      ("string".toList, { color := some (.rgba 0x00FF00AA), font := { italic := true } }),
      ("at".toList, { color := some (.rgb 0xFF00FF), font := { bold := true } }),
      ("bang".toList, { font := { italic := true, bold := true, underline := true } }),
      ("strike".toList, { font := { strikethrough := true } }),
      ("under".toList, { color := some (.rgb 0x123456), font := { underline := true } })]

def light : Theme where
  backdrop := ⟨.rgb 0x222222, .rgb 0xFFFFFF⟩
  scopes :=
    [("numeric".toList, { color := some (.rgb 0x0000CC) }),
      ("string".toList, { color := some (.rgb 0x00AA00) }),
      ("at".toList, { font := { italic := true } }),
      ("bang".toList, { color := some (.rgb 0xCC0000), font := { underline := true } }),
      ("strike".toList, { color := some (.rgb 0x999999), font := { bold := true, strikethrough := true } })]

def flat : Theme where
  backdrop := ⟨.rgb 0xABCDEF, .rgba 0x12345678⟩

def registry (linked : Bool) : Registry where
  linked := linked
  grammars := (Language.all.filter (· ≠ .html)).map fun language => (language.grammar, grammar)
  themes := [("mini-dark".toList, dark), ("mini-light".toList, light), ("mini-flat".toList, flat)]

end CodeFence.Sample
