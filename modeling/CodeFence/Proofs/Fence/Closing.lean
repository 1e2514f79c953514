import CodeFence.Proofs.Fence.Block

set_option autoImplicit false

namespace CodeFence

open Text (Lacks)

namespace Text

def dropBlankLines (text : Text) : Text :=
  unlines (text.lines.rdropWhile fun line => line.trim.isEmpty)

theorem rdropWhile_congr {α : Type} {p q : α → Bool} {items : List α} (same : ∀ item ∈ items, p item = q item) :
    items.rdropWhile p = items.rdropWhile q := by
  induction items using List.reverseRecOn with
  | nil => rfl
  | append_singleton items last ih =>
      have here := same last (by simp)
      have later := ih fun item held => same item (List.mem_append_left _ held)
      rw [List.rdropWhile_concat, List.rdropWhile_concat, here, later]

end Text

namespace Block

theorem dropClosing_blank {family : Family} {text : Text} (lacks : text.Lacks family.token) :
    Text.unlines (dropClosing family text.lines) = text.dropBlankLines := by
  have same : ∀ line ∈ text.lines, family.closes line = line.trim.isEmpty := by
    intro line held
    have inside : line <:+: text := by simpa only [Text.unlines_lines] using Text.line_inside held
    rw [Bool.eq_iff_iff, Text.blank_iff_trim]
    constructor
    · exact Family.closes_blank (Text.lacks_part lacks inside)
    · intro blank
      rw [Family.closes, Text.blank_iff_trim.mpr blank, Bool.true_or]
  exact congrArg Text.unlines (Text.rdropWhile_congr same)

theorem dropClosing_closed {family : Family} {inner : Text} (lacks : inner.Lacks family.token) (blank : inner.lastLine.AllBlank) :
    Text.unlines (dropClosing family (Text.lines (inner ++ family.token))) = inner.dropBlankLines := by
  have bare : '\n' ∉ family.token := Family.outside_token family.newline_outside
  obtain ⟨init, longer⟩ := Text.lines_last inner
  have lines : inner.lines = init ++ [inner.lastLine] := by simpa using longer [] List.not_mem_nil
  have closing : family.closes inner.lastLine = true := by
    rw [Family.closes, Text.blank_iff_trim.mpr blank, Bool.true_or]
  rw [longer family.token bare, dropClosing_last init (Family.closes_behind.mpr blank), ← dropClosing_last init closing, ← lines,
    dropClosing_blank lacks]

end Block

theorem Family.located_code_iff {family : Family} {text : Text} {span : Span} {block : Block}
    (located : family.locate text = .closed span) (parsed : Block.parse family (span.raw family) = .ok block) :
    ∃ line inner : Text, span.body = line ++ '\n' :: inner ∧ '\n' ∉ line ∧
      Language.ofTag? (span.language.tag ++ line).trim = some block.language ∧
      (block.code = inner.dropBlankLines ↔ inner.lastLine.AllBlank) ∧
      (block.code.Lacks family.token ↔ inner.lastLine.AllBlank) ∧
      (¬ inner.lastLine.AllBlank → block.code = inner ++ family.token) := by
  obtain ⟨line, inner, body, fresh, named, code⟩ := Block.parse_body parsed
  have lacks : Lacks inner family.token := by
    have inside : inner <:+ span.body := ⟨line ++ ['\n'], by simp [body]⟩
    exact Text.lacks_part (Family.locate_body_lacks located) inside.isInfix
  have short : Lacks (Text.dropBlankLines inner) family.token := by
    rw [← Block.dropClosing_blank lacks]
    exact Text.lacks_part lacks (Block.dropClosing_front family inner).isInfix
  refine ⟨line, inner, body, fresh, named, ?_⟩
  by_cases blank : inner.lastLine.AllBlank
  · rw [code, Block.dropClosing_closed lacks blank]
    exact ⟨iff_of_true rfl blank, iff_of_true short blank, fun seen => absurd blank seen⟩
  · have long : ¬ Lacks (inner ++ family.token) family.token := fun lacking => lacking (List.suffix_append inner _).isInfix
    rw [code, Block.dropClosing_open blank]
    refine ⟨iff_of_false (fun same => ?_) blank, iff_of_false long blank, fun _ => rfl⟩
    rw [same] at long
    exact long short

theorem Family.located_code_indented :
    let text : Text := "a```ts \n\nx\n\n  ```b".toList
    let span : Span := ⟨['a'], .ts, " \n\nx\n\n  ".toList, ['b']⟩
    Family.backtick.locate text = .closed span ∧ Block.parse .backtick (span.raw .backtick) = .ok ⟨.ts, "\nx".toList⟩ ∧
      ∃ line inner : Text, span.body = line ++ '\n' :: inner ∧ '\n' ∉ line ∧
        ("\nx".toList = inner.dropBlankLines ↔ inner.lastLine.AllBlank) := by
  intro text span
  have located : Family.backtick.locate text = .closed span := by decide +kernel
  have parsed : Block.parse .backtick (span.raw .backtick) = .ok ⟨.ts, "\nx".toList⟩ := by decide +kernel
  obtain ⟨line, inner, body, fresh, -, ends, -⟩ := Family.located_code_iff located parsed
  exact ⟨located, parsed, line, inner, body, fresh, ends⟩

-- Code in front of the token on its line keeps the token.
theorem Family.located_code_token :
    let span : Span := ⟨[], .ts, "\nlet a = 1;".toList, []⟩
    Family.backtick.locate "```ts\nlet a = 1;```".toList = .closed span ∧
      Block.parse .backtick (span.raw .backtick) = .ok ⟨.ts, "let a = 1;```".toList⟩ ∧
      Text.dropBlankLines "let a = 1;".toList = "let a = 1;".toList ∧
      ¬ Lacks "let a = 1;```".toList Family.backtick.token := by
  decide +kernel

end CodeFence
