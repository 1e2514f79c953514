import CodeFence.Fence.Family

set_option autoImplicit false

namespace CodeFence

structure Opening where
  before : Text
  language : Language
  behind : Text
deriving DecidableEq, Repr

-- A text cut at its first block; `body` is what stands between the opener and the closing token.
structure Span where
  before : Text
  language : Language
  body : Text
  behind : Text
deriving DecidableEq, Repr

def Span.raw (family : Family) (span : Span) : Text :=
  family.token ++ span.language.tag ++ span.body ++ family.token

def Span.splice (span : Span) (replacement : Text) : Text :=
  span.before ++ replacement ++ span.behind

inductive Located
  | clear
  | unclosed (opening : Opening)
  | closed (span : Span)
deriving DecidableEq, Repr

namespace Family

def findOpening? (family : Family) : Text → Option Opening
  | [] => none
  | c :: rest =>
      match family.opening? (c :: rest) with
      | some (language, behind) => some ⟨[], language, behind⟩
      | none => (family.findOpening? rest).map fun found => { found with before := c :: found.before }

def locate (family : Family) (text : Text) : Located :=
  match family.findOpening? text with
  | none => .clear
  | some opening =>
      match Text.cut? family.token opening.behind with
      | none => .unclosed opening
      | some (body, behind) => .closed ⟨opening.before, opening.language, body, behind⟩

theorem findOpening_parts {family : Family} {text : Text} {found : Opening}
    (located : family.findOpening? text = some found) :
    text = found.before ++ family.token ++ found.language.tag ++ found.behind := by
  induction text generalizing found with
  | nil => simp [findOpening?] at located
  | cons c rest ih =>
      cases here : family.opening? (c :: rest) with
      | some opener =>
          simp only [findOpening?, here, Option.some.injEq] at located
          subst located
          simpa using opening_parts here
      | none =>
          simp only [findOpening?, here, Option.map_eq_some_iff] at located
          obtain ⟨inner, deeper, rfl⟩ := located
          simpa using congrArg (List.cons c) (ih deeper)

theorem locate_parts {family : Family} {text : Text} {span : Span} (located : family.locate text = .closed span) :
    text = span.splice (span.raw family) := by
  unfold locate at located
  split at located
  · simp at located
  · rename_i opening opened
    split at located
    · simp at located
    · rename_i body behind closed
      simp only [Located.closed.injEq] at located
      subst located
      simp [Span.splice, Span.raw, findOpening_parts opened, Text.cut_parts closed]

end Family
end CodeFence
