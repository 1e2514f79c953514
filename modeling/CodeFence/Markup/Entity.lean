import CodeFence.Text.Substitute

set_option autoImplicit false

namespace CodeFence

namespace Entity

def markup (c : Char) : Text :=
  match c with
  | '>' => "&gt;".toList
  | '<' => "&lt;".toList
  | '&' => "&amp;".toList
  | '\'' => "&#39;".toList
  | '"' => "&quot;".toList
  | c => [c]

def template (c : Char) : Text :=
  match c with
  | '\x7b' => "&lbrace;".toList
  | '\x7d' => "&rbrace;".toList
  | '\x60' => "&grave;".toList
  | c => [c]

def table : List Substitution :=
  [("&gt;".toList, ['>']), ("&lt;".toList, ['<']), ("&amp;".toList, ['&']), ("&#39;".toList, ['\'']),
    ("&quot;".toList, ['"']), ("&lbrace;".toList, ['\x7b']), ("&rbrace;".toList, ['\x7d']),
    ("&grave;".toList, ['\x60'])]

end Entity

namespace Text

def escapeMarkup (text : Text) : Text :=
  text.flatMap Entity.markup

def escapeTemplate (html : Text) : Text :=
  html.flatMap Entity.template

theorem escapeTemplate_append (a b : Text) : escapeTemplate (a ++ b) = a.escapeTemplate ++ b.escapeTemplate :=
  List.flatMap_append

theorem escapeTemplate_safe (html : Text) :
    '\x7b' ∉ html.escapeTemplate ∧ '\x7d' ∉ html.escapeTemplate ∧ '\x60' ∉ html.escapeTemplate := by
  have safe (c : Char) :
      '\x7b' ∉ Entity.template c ∧ '\x7d' ∉ Entity.template c ∧ '\x60' ∉ Entity.template c := by
    unfold Entity.template
    split
    · decide
    · decide
    · decide
    · rename_i notOpening notClosing notGrave
      simp only [List.mem_singleton]
      exact ⟨fun same => notOpening same.symm, fun same => notClosing same.symm, fun same => notGrave same.symm⟩
  simp only [escapeTemplate, List.mem_flatMap, not_exists, not_and]
  exact ⟨fun c _ => (safe c).1, fun c _ => (safe c).2.1, fun c _ => (safe c).2.2⟩

end Text
end CodeFence
