import CodeFence.Engine.Tokens

set_option autoImplicit false

namespace CodeFence

namespace Plain

def block (stem : Text) (themes : ThemePair) : List Declaration :=
  blockDeclarations stem themes ⟨.rgb 0x000000, .rgb 0x111111⟩ ⟨.rgb 0xFFFFFF, .rgb 0xEEEEEE⟩

def piece (stem : Text) (themes : ThemePair) : List Declaration :=
  colorDeclarations stem themes [] (Color.rgb 0xAAAAAA).hex (Color.rgb 0x555555).hex

def line (stem : Text) (themes : ThemePair) (text : Text) : List Styled :=
  if text.isEmpty then [] else [⟨text, styleText (piece stem themes)⟩]

def tree (request : Request) : Element :=
  blockElement "fake".toList (styleText (block request.stem request.themes))
    (request.code.lines.map (line request.stem request.themes))

end Plain

def Engine.plain : Engine := fun _ request => .tree (Plain.tree request)

theorem Engine.plain_steady : Engine.plain.Steady := fun _ _ _ => rfl

end CodeFence
