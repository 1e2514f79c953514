import CodeFence.Engine.Registry

set_option autoImplicit false

namespace CodeFence.Builtin

def grammar : Grammar := fun line => if line.isEmpty then [] else [⟨line, none⟩]

def theme (foreground background : Color) : Theme where
  backdrop := ⟨foreground, background⟩

def themes : List (Text × Theme) :=
  [("vitesse-black".toList, theme (.rgba 0xDBD7CACC) (.rgb 0x000000)),
    ("rose-pine-dawn".toList, theme (.rgb 0x575279) (.rgb 0xFAF4ED)),
    ("nord".toList, theme (.rgb 0xD8DEE9) (.rgb 0x2E3440)),
    ("github-light".toList, theme (.rgb 0x24292E) (.rgb 0xFFFFFF)),
    ("github-dark".toList, theme (.rgb 0xE1E4E8) (.rgb 0x24292E)),
    ("dracula".toList, theme (.rgb 0xF8F8F2) (.rgb 0x282A36)),
    ("min-light".toList, theme (.rgb 0x24292E) (.rgb 0xFFFFFF)),
    ("one-light".toList, theme (.rgb 0x383A42) (.rgb 0xFAFAFA)),
    ("monokai".toList, theme (.rgb 0xF8F8F2) (.rgb 0x272822))]

def registry : Registry where
  linked := true
  grammars := Language.all.map fun language => (language.grammar, grammar)
  themes := themes

end CodeFence.Builtin
