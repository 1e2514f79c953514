import CodeFence.Document.Run

set_option autoImplicit false

namespace CodeFence

structure Sweep where
  content : Text
  blocks : Nat
  abortedAt : Option Nat
deriving DecidableEq, Repr

theorem Family.locate_shrinks {family : Family} {text : Text} {span : Span}
    (located : family.locate text = .closed span) : span.behind.length < text.length := by
  have token : 0 < family.token.length := by cases family <;> decide
  have whole := congrArg List.length (Family.locate_parts located)
  simp only [Span.splice, Span.raw, List.length_append] at whole
  omega

def Rendering.replacement (rendering : Rendering) : Text :=
  rendering.result.toOption.getD []

def Sweep.after (done : Text) (rest : Sweep) : Sweep :=
  ⟨done ++ rest.content, rest.blocks + 1, rest.abortedAt.map (done.byteLength + ·)⟩

def Highlighter.sweep (highlighter : Highlighter) (earlier : Nat) (family : Family) (text : Text) : Sweep :=
  match _ : family.locate text with
  | .clear => ⟨text, 0, none⟩
  | .unclosed opening => ⟨text, 1, some opening.before.byteLength⟩
  | .closed span =>
      let rendering := highlighter.rendering earlier family (span.raw family)
      (highlighter.sweep (earlier + rendering.asked.length) family span.behind).after
        (span.before ++ rendering.replacement)
termination_by text.length
decreasing_by
  rename_i located
  exact Family.locate_shrinks located

end CodeFence
