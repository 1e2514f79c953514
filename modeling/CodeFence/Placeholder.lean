import CodeFence.Text.Substitute

set_option autoImplicit false

namespace CodeFence.Placeholder

def backtickFence : Text := "&tripgrave;".toList

def tripleSlash : Text := "&tripslash;".toList

def tildeFence : Text := "&triptilde;".toList

def table : List Substitution :=
  [(backtickFence, "```".toList), (tripleSlash, "///".toList), (tildeFence, "~~~".toList)]

def restore (code : Text) : Text :=
  code.substitute table

def hide (code : Text) : Text :=
  code.substitute (table.map Prod.swap)

end CodeFence.Placeholder
