import CodeFence.Markup.Entity

set_option autoImplicit false

namespace CodeFence.Text

def dropTags : (inside : Bool) → Text → Text
  | _, [] => []
  | true, c :: rest => dropTags (c ≠ '>') rest
  | false, c :: rest => if c = '<' then dropTags true rest else c :: dropTags false rest

def unescape (markup : Text) : Text :=
  markup.substitute Entity.table

def readable (markup : Text) : Text :=
  (dropTags false markup).unescape

end CodeFence.Text
