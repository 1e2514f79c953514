import CodeFence.Markup.Tree
import CodeFence.Markup.Entity
import CodeFence.Text.Decimal

set_option autoImplicit false

namespace CodeFence

def Property.html : Property → Text
  | .str chars => "=\"".toList ++ chars.escapeMarkup ++ "\"".toList
  | .int n => "=\"".toList ++ decimal n ++ "\"".toList
  | .flag => []

def Properties.html (properties : Properties) : Text :=
  properties.flatMap fun entry => ' ' :: entry.1 ++ entry.2.html

def Element.startTag (tag : Text) (properties : Properties) : Text :=
  "<".toList ++ tag ++ properties.html ++ ">".toList

def Element.endTag (tag : Text) : Text :=
  "</".toList ++ tag ++ ">".toList

mutual
def Node.html : Node → Text
  | .text chars => chars.escapeMarkup
  | .element ⟨tag, properties, children⟩ =>
      Element.startTag tag properties ++ Node.allHtml children ++ Element.endTag tag

def Node.allHtml : List Node → Text
  | [] => []
  | node :: rest => node.html ++ Node.allHtml rest
end

def Element.html (root : Element) : Text :=
  (Node.element root).html

end CodeFence
