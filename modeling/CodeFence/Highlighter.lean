import CodeFence.Directive
import CodeFence.Engine.Basic
import CodeFence.Markup.Html
import CodeFence.Markup.Numbered
import CodeFence.Placeholder

set_option autoImplicit false

namespace CodeFence

structure Highlighter where
  engine : Engine
  themes : ThemePair := {}
  stem : Text := defaultStem
  wrapperClass : Text := "code-wrapper".toList

namespace Highlighter

def request (highlighter : Highlighter) (code : Text) (language : Language) : Request :=
  ⟨code, language, highlighter.themes, highlighter.stem⟩

-- Asks the engine, which has had as many requests as `earlier` says. Nothing else asks it.
def ask (highlighter : Highlighter) (earlier : Nat) (request : Request) : Call Element :=
  ⟨[request], (highlighter.engine earlier request).settle⟩

def treeCall (highlighter : Highlighter) (earlier : Nat) (code : Text) (language : Language) (lines : List LineRange) : Call Element :=
  (highlighter.ask earlier (highlighter.request code language)).map (Element.numberLines lines)

def tree (highlighter : Highlighter) (earlier : Nat) (code : Text) (language : Language) (lines : List LineRange) :
    Except Fault Element :=
  (highlighter.treeCall earlier code language lines).result

def code (raw : Text) : Text :=
  (Placeholder.restore (Directive.parse raw).code).trim

def wrap (highlighter : Highlighter) (html : Text) : Text :=
  "<div class=\"".toList ++ highlighter.wrapperClass.escapeMarkup ++ "\">".toList ++ html ++ "</div>".toList

def fragmentCall (highlighter : Highlighter) (earlier : Nat) (raw : Text) (language : Language) : Call Text :=
  (highlighter.treeCall earlier (code raw) language (Directive.parse raw).lines).map fun root =>
    highlighter.wrap root.html.escapeTemplate

def fragment (highlighter : Highlighter) (earlier : Nat) (raw : Text) (language : Language) : Except Fault Text :=
  (highlighter.fragmentCall earlier raw language).result

end Highlighter
end CodeFence
