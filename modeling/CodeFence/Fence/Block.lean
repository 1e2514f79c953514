import CodeFence.Fault
import CodeFence.Fence.Family
import CodeFence.Text.Blank

set_option autoImplicit false

namespace CodeFence

structure Block where
  language : Language
  code : Text
deriving DecidableEq, Repr

def Family.closes (family : Family) (line : Text) : Bool :=
  line.trim.isEmpty || line.trim == family.token

namespace Block

def dropClosing (family : Family) (lines : List Text) : List Text :=
  (lines.reverse.dropWhile family.closes).reverse

def parse (family : Family) (raw : Text) : Except Fault Block :=
  match raw.trim.lines with
  | [] => .error .emptyInput
  | [] :: _ => .error .emptyInput
  | first :: body =>
      match Text.strip? family.token first with
      | none => .error .notAFence
      | some rest =>
          match Language.ofTag? rest.trim with
          | none => .error (.unknownLanguage rest.trim)
          | some language => .ok ⟨language, Text.unlines (dropClosing family body)⟩

def write (family : Family) (block : Block) : Text :=
  family.token ++ block.language.tag ++ '\n' :: block.code ++ '\n' :: family.token

end Block
end CodeFence
