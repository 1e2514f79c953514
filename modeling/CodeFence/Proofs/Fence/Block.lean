import CodeFence.Proofs.Fence.Located
import CodeFence.Proofs.Fence.Mark
import CodeFence.Proofs.Text.Lines
import Mathlib.Data.List.DropRight

set_option autoImplicit false

namespace CodeFence

namespace Family

theorem newline_apart (family : Family) (language : Language) : '\n' ∉ family.opener language :=
  family.newline_outside language

theorem token_solid (family : Family) (middle : Text) : Text.Solid (family.token ++ middle ++ family.token) := by
  constructor
  · rw [List.append_assoc]
    cases family <;> simp [token] <;> decide
  · rw [List.getLast?_append_of_ne_nil _ family.token_marked]
    cases family <;> decide

theorem closes_token (family : Family) : family.closes family.token = true := by
  cases family <;> decide

-- A text that ends neither with a blank nor with a character of the token.
def Stopped (family : Family) (text : Text) : Prop :=
  ∃ front c, text = front ++ [c] ∧ isBlank c = false ∧ c ∉ family.token

theorem stopped_behind {family : Family} (before : Text) {text : Text} (stopped : family.Stopped text) :
    family.Stopped (before ++ text) := by
  obtain ⟨front, c, rfl, seen, outside⟩ := stopped
  exact ⟨before ++ front, c, (List.append_assoc before front [c]).symm, seen, outside⟩

theorem stopped_firm {family : Family} {text : Text} (stopped : family.Stopped text) : text.Firm := by
  obtain ⟨front, c, shape, seen, -⟩ := stopped
  exact ⟨front, c, shape, seen⟩

theorem cut_stopped {family : Family} {text : Text} (stopped : family.Stopped text) (lacks : text.Lacks family.token)
    (behind : Text) : Text.cut? family.token (text ++ family.token ++ behind) = some (text, behind) := by
  obtain ⟨front, c, rfl, -, outside⟩ := stopped
  have before : Text.cut? family.token front = none :=
    Text.cut_eq_none_iff.mpr (Text.lacks_part lacks (List.prefix_append front [c]).isInfix)
  have cut := Text.cut_apart outside family.token_marked front (family.token ++ behind)
  rw [before, Text.cut_here family.token_marked] at cut
  simpa using cut

theorem closes_behind {family : Family} {front : Text} : family.closes (front ++ family.token) = true ↔ front.AllBlank := by
  obtain ⟨blanks, blank, split⟩ := Text.trimStart_split front
  have token : ∀ c ∈ family.token, isBlank c = false := by cases family <;> decide
  have solid : Text.Solid (front.trimStart ++ family.token) := by
    constructor
    · cases start : front.trimStart with
      | nil => exact fun c first => token c (List.mem_of_mem_head? first)
      | cons d rest =>
          have lead := Text.trimStart_head front
          rwa [start] at lead
    · rw [List.getLast?_append_of_ne_nil _ family.token_marked]
      exact fun c last => token c (List.mem_of_getLast? last)
  have trimmed : Text.trim (front ++ family.token) = front.trimStart ++ family.token := by
    have around := @Text.trim_around blanks [] _ blank (by simp [Text.AllBlank]) solid
    rwa [List.append_nil, ← List.append_assoc, ← split] at around
  have some : (front.trimStart ++ family.token).isEmpty = false := by simp [family.token_marked]
  rw [closes, trimmed, some, Bool.false_or, beq_iff_eq, List.append_left_eq_self]
  constructor
  · intro nothing
    rw [split, nothing, List.append_nil]
    exact blank
  · intro all
    have dropped := Text.trimStart_blank all []
    rwa [List.append_nil] at dropped

theorem closes_blank {family : Family} {line : Text} (lacks : line.Lacks family.token) (closing : family.closes line = true) :
    line.AllBlank := by
  rcases Bool.or_eq_true_iff.mp closing with empty | bare
  · exact Text.blank_of_trim (List.isEmpty_iff.mp empty)
  · rw [beq_iff_eq] at bare
    exact absurd (bare ▸ Text.trim_inside line) lacks

end Family

namespace Block

theorem dropClosing_split (family : Family) (lines : List Text) :
    ∃ closing, lines = dropClosing family lines ++ closing ∧ ∀ line ∈ closing, family.closes line = true :=
  ⟨lines.rtakeWhile family.closes, List.rdropWhile_append_rtakeWhile.symm, fun _ held => List.mem_rtakeWhile_imp held⟩

theorem dropClosing_last {family : Family} (lines : List Text) {line : Text} (closing : family.closes line = true) :
    dropClosing family (lines ++ [line]) = dropClosing family lines :=
  List.rdropWhile_concat_pos _ _ _ closing

theorem dropClosing_kept {family : Family} (lines : List Text) {line : Text} (more : ¬ family.closes line = true) :
    dropClosing family (lines ++ [line]) = lines ++ [line] :=
  List.rdropWhile_concat_neg _ _ _ more

theorem dropClosing_open {family : Family} {inner : Text} (seen : ¬ inner.lastLine.AllBlank) :
    Text.unlines (dropClosing family (Text.lines (inner ++ family.token))) = inner ++ family.token := by
  have bare : '\n' ∉ family.token := Family.outside_token family.newline_outside
  obtain ⟨init, longer⟩ := Text.lines_last inner
  rw [longer family.token bare, dropClosing_kept init (mt Family.closes_behind.mp seen), ← longer family.token bare,
    Text.unlines_lines]

theorem ofTag_spaced (language : Language) : Language.ofTag? language.tag.trim = some language := by
  cases language <;> decide

theorem parse_token {family : Family} {raw rest : Text} {body : List Text} (lines : raw.trim.lines = (family.token ++ rest) :: body) :
    parse family raw =
      match Language.ofTag? rest.trim with
      | none => .error (.unknownLanguage rest.trim)
      | some language => .ok ⟨language, Text.unlines (dropClosing family body)⟩ := by
  have opened := Text.strip_append family.token rest
  obtain ⟨c, tail, shape⟩ := List.exists_cons_of_ne_nil family.token_marked
  unfold parse
  rw [lines]
  rw [shape, List.cons_append] at opened ⊢
  cases named : Language.ofTag? rest.trim with
  | none => simp only [opened, named]
  | some language => simp only [opened, named]

theorem parse_lines {family : Family} {language : Language} {raw line : Text} {body : List Text} (solid : raw.trim = raw)
    (lines : raw.lines = (family.opener language ++ line) :: body) : parse family raw =
      match Language.ofTag? (language.tag ++ line).trim with
      | none => .error (.unknownLanguage (language.tag ++ line).trim)
      | some read => .ok ⟨read, Text.unlines (dropClosing family body)⟩ := by
  have trimmed : raw.trim.lines = (family.token ++ (language.tag ++ line)) :: body := by
    rw [solid, lines, Family.opener, List.append_assoc]
  exact parse_token trimmed

theorem parse_written {family : Family} {block : Block} (inside : block.code.Lacks family.token) :
    ∃ kept blanks, Text.AllBlank blanks ∧ block.code = kept ++ blanks ∧
      Block.parse family (block.write family) = .ok ⟨block.language, kept⟩ := by
  obtain ⟨language, code⟩ := block
  obtain ⟨closing, split, closes⟩ := dropClosing_split family code.lines
  have blank : ∀ line ∈ closing, line.AllBlank := by
    intro line held
    have member : line ∈ code.lines := split ▸ List.mem_append_right _ held
    have within : line <:+: code := by simpa only [Text.unlines_lines] using Text.line_inside member
    exact Family.closes_blank (Text.lacks_part inside within) (closes line held)
  obtain ⟨blanks, whole, empty⟩ := Text.unlines_append (dropClosing family code.lines) closing
  refine ⟨Text.unlines (dropClosing family code.lines), blanks, empty blank, ?_, ?_⟩
  · rw [← whole, ← split, Text.unlines_lines]
  · have solid : Text.trim (write family ⟨language, code⟩) = write family ⟨language, code⟩ := by
      have around := Text.trim_solid (family.token_solid (language.tag ++ '\n' :: code ++ ['\n']))
      simpa [write] using around
    have lines : (write family ⟨language, code⟩).lines = family.opener language :: (code.lines ++ [family.token]) := by
      have bare : '\n' ∉ family.token := Family.outside_token family.newline_outside
      have first := Text.lines_single (family.newline_apart language)
      rw [write, List.append_assoc, List.cons_append, Text.lines_break, Text.lines_break, Text.lines_single bare]
      exact congrArg (· ++ (code.lines ++ [family.token])) first
    rw [← List.append_nil (family.opener language)] at lines
    have read := parse_lines solid lines
    rw [List.append_nil] at read
    simp only [read, ofTag_spaced, dropClosing_last _ family.closes_token]

theorem opened_solid (family : Family) (language : Language) (body : Text) :
    Text.trim (family.opener language ++ body ++ family.token) = family.opener language ++ body ++ family.token := by
  simpa [Family.opener] using Text.trim_solid (family.token_solid (language.tag ++ body))

theorem opened_lines (family : Family) (language : Language) {line : Text} (whole : '\n' ∉ line) (inner : Text) :
    Text.lines (family.opener language ++ (line ++ '\n' :: inner) ++ family.token) =
      (family.opener language ++ line) :: Text.lines (inner ++ family.token) := by
  have front : '\n' ∉ family.opener language ++ line := by
    rw [List.mem_append, not_or]
    exact ⟨family.newline_apart language, whole⟩
  have broken := Text.lines_break (family.opener language ++ line) (inner ++ family.token)
  rw [Text.lines_single front] at broken
  simpa using broken

theorem parse_body {family : Family} {language : Language} {body : Text} {block : Block}
    (parsed : parse family (family.opener language ++ body ++ family.token) = .ok block) :
    ∃ line inner : Text, body = line ++ '\n' :: inner ∧ '\n' ∉ line ∧
      Language.ofTag? (language.tag ++ line).trim = some block.language ∧
      block.code = Text.unlines (dropClosing family (Text.lines (inner ++ family.token))) := by
  have solid := opened_solid family language body
  by_cases newline : '\n' ∈ body
  · obtain ⟨line, inner, rfl, fresh⟩ := List.eq_append_cons_of_mem newline
    rw [parse_lines solid (opened_lines family language fresh inner)] at parsed
    cases named : Language.ofTag? (language.tag ++ line).trim with
    | none =>
        rw [named] at parsed
        cases parsed
    | some read =>
        rw [named] at parsed
        obtain rfl := Except.ok.inj parsed
        exact ⟨line, inner, rfl, fresh, named, rfl⟩
  · -- The token would be a part of the language's name.
    have bare : '\n' ∉ family.token := Family.outside_token family.newline_outside
    have lines : Text.lines (family.opener language ++ body ++ family.token) = [family.opener language ++ (body ++ family.token)] := by
      rw [List.append_assoc]
      exact Text.lines_single (by simpa using ⟨family.newline_apart language, newline, bare⟩)
    rw [parse_lines solid lines] at parsed
    cases named : Language.ofTag? (language.tag ++ (body ++ family.token)).trim with
    | none =>
        rw [named] at parsed
        cases parsed
    | some read =>
        obtain ⟨c, held, seen, outside⟩ : ∃ c ∈ family.token, isBlank c = false ∧ ∀ read : Language, c ∉ read.tag := by
          cases family <;> exact ⟨_, List.mem_cons_self, by decide, by rintro ⟨⟩ <;> decide⟩
        have inside : c ∈ (language.tag ++ (body ++ family.token)).trim := Text.trim_holds (by simp [held]) seen
        rw [← Language.tag_of_ofTag named] at inside
        exact absurd inside (outside read)

theorem parse_unread {family : Family} {language : Language} {body : Text} {fault : Fault}
    (unread : parse family (family.opener language ++ body ++ family.token) = .error fault) : ∃ tag, fault = .unknownLanguage tag := by
  have solid := opened_solid family language body
  obtain ⟨line, rest, lines⟩ := Text.lines_front (family.newline_apart language) (body ++ family.token)
  rw [← List.append_assoc] at lines
  rw [parse_lines solid lines] at unread
  cases named : Language.ofTag? (language.tag ++ line).trim with
  | none =>
      rw [named] at unread
      exact ⟨_, (Except.error.inj unread).symm⟩
  | some read =>
      rw [named] at unread
      cases unread

theorem dropClosing_front (family : Family) (text : Text) : Text.unlines (dropClosing family text.lines) <+: text := by
  obtain ⟨closing, split, -⟩ := dropClosing_split family text.lines
  obtain ⟨tail, longer, -⟩ := Text.unlines_append (dropClosing family text.lines) closing
  rw [← split, Text.unlines_lines] at longer
  exact ⟨tail, longer.symm⟩

theorem parse_code_inside {family : Family} {language : Language} {body : Text} {block : Block}
    (parsed : parse family (family.opener language ++ body ++ family.token) = .ok block) :
    block.code <:+: body ++ family.token := by
  obtain ⟨line, inner, rfl, -, -, code⟩ := parse_body parsed
  have behind : inner ++ family.token <:+ line ++ '\n' :: inner ++ family.token :=
    ⟨line ++ ['\n'], by simp⟩
  rw [code]
  exact (dropClosing_front family _).isInfix.trans behind.isInfix

-- A block with a last line that does not close it comes with its closing token.
theorem parse_stopped {family : Family} {language read : Language} {line code : Text} (whole : '\n' ∉ line)
    (named : Language.ofTag? (language.tag ++ line).trim = some read) (stopped : family.Stopped code) :
    parse family (family.opener language ++ (line ++ '\n' :: code) ++ family.token) = .ok ⟨read, code ++ family.token⟩ := by
  have seen : ¬ code.lastLine.AllBlank := by
    obtain ⟨init, c, rfl, visible, -⟩ := stopped
    have single : '\n' ∉ [c] := by
      rw [List.mem_singleton]
      rintro rfl
      exact absurd visible (by decide)
    rw [Text.lastLine_append single]
    intro blank
    rw [blank c (List.mem_append_right _ List.mem_cons_self)] at visible
    cases visible
  rw [parse_lines (opened_solid family language _) (opened_lines family language whole code), named]
  simp only [dropClosing_open seen]

theorem parse_quoted {family : Family} {language : Language} {block : Block} {front rest : Text}
    (parsed : parse family (family.opener language ++ (front ++ '"' :: rest) ++ family.token) = .ok block) :
    ∃ line behind, front = line ++ '\n' :: behind ∧ '\n' ∉ line ∧ (Language.ofTag? (language.tag ++ line).trim).isSome := by
  obtain ⟨line, inner, split, fresh, named, -⟩ := parse_body parsed
  have unquoted : '"' ∉ line := by
    intro held
    have inside : '"' ∈ (language.tag ++ line).trim := Text.trim_holds (List.mem_append_right _ held) (by decide)
    rw [← Language.tag_of_ofTag named] at inside
    generalize block.language = read at inside
    cases read <;> exact absurd inside (by decide)
  have some : (Language.ofTag? (language.tag ++ line).trim).isSome := by rw [named]; rfl
  rcases List.append_eq_append_iff.mp split with ⟨more, rfl, behind⟩ | ⟨more, rfl, behind⟩
  · cases more with
    | nil => cases behind
    | cons c more =>
        obtain ⟨rfl, -⟩ := List.cons_eq_cons.mp behind
        exact absurd (List.mem_append_right front List.mem_cons_self) unquoted
  · cases more with
    | nil => cases behind
    | cons c more =>
        obtain ⟨rfl, -⟩ := List.cons_eq_cons.mp behind
        exact ⟨line, more, rfl, fresh, some⟩

end Block

theorem Family.parse_code_sharp {family : Family} {text : Text} {span : Span} {block : Block}
    (located : family.locate text = .closed span) (parsed : Block.parse family (span.raw family) = .ok block) :
    family.Sharp block.code ∧ block.code <:+: span.body ++ family.token := by
  obtain ⟨rest, -, cut⟩ := Family.locate_closed_iff.mp located
  have inside : block.code <:+: span.body ++ family.token := Block.parse_code_inside parsed
  exact ⟨Family.sharp_part (fun c _ => Text.cut_short (List.cons_ne_nil c []) cut) inside, inside⟩

end CodeFence
