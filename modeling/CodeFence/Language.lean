import CodeFence.Text.Basic

set_option autoImplicit false

namespace CodeFence

inductive Language
  | json
  | sh
  | html
  | css
  | md
  | js
  | ts
  | svelte
  | diff
deriving DecidableEq, Repr

namespace Language

def all : List Language :=
  [json, sh, html, css, md, js, ts, svelte, diff]

def tag : Language → Text
  | json => "json".toList
  | sh => "sh".toList
  | html => "html".toList
  | css => "css".toList
  | md => "md".toList
  | js => "js".toList
  | ts => "ts".toList
  | svelte => "svelte".toList
  | diff => "diff".toList

def grammar : Language → Text
  | sh => "shellscript".toList
  | md => "markdown".toList
  | js => "javascript".toList
  | ts => "typescript".toList
  | language => language.tag

def ofTag? (tag : Text) : Option Language :=
  all.find? fun language => language.tag = tag

theorem mem_all (language : Language) : language ∈ all := by
  cases language <;> decide

theorem ofTag_tag (language : Language) : ofTag? language.tag = some language := by
  cases language <;> decide

theorem tag_of_ofTag {tag : Text} {language : Language} (found : ofTag? tag = some language) :
    language.tag = tag := by
  simpa using List.find?_some found

end Language
end CodeFence
