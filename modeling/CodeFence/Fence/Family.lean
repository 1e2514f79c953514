import CodeFence.Language

set_option autoImplicit false

namespace CodeFence

inductive Family
  | backtick
  | tilde
deriving DecidableEq, Repr

namespace Family

def all : List Family :=
  [backtick, tilde]

def defaultPasses : List Family :=
  [backtick, tilde]

def token : Family → Text
  | backtick => "```".toList
  | tilde => "~~~".toList

def name : Family → Text
  | backtick => "backtick".toList
  | tilde => "tilde".toList

def openerPattern (family : Family) : Text :=
  family.token ++ "(".toList ++ "|".toList.intercalate (Language.all.map Language.tag) ++ ")".toList

-- The language and the text behind its tag, when an opener stands at the front.
def opening? (family : Family) (text : Text) : Option (Language × Text) :=
  (Text.strip? family.token text).bind fun rest =>
    Language.all.findSome? fun language => (Text.strip? language.tag rest).map fun behind => (language, behind)

theorem opening_parts {family : Family} {text behind : Text} {language : Language}
    (found : family.opening? text = some (language, behind)) :
    text = family.token ++ language.tag ++ behind := by
  obtain ⟨rest, opened, tagged⟩ := Option.bind_eq_some_iff.mp found
  obtain ⟨candidate, _, stripped⟩ := List.exists_of_findSome?_eq_some tagged
  simp only [Option.map_eq_some_iff, Prod.mk.injEq] at stripped
  obtain ⟨_, matched, rfl, rfl⟩ := stripped
  simp [Text.strip_eq_some_iff.mp opened, Text.strip_eq_some_iff.mp matched]

end Family
end CodeFence
