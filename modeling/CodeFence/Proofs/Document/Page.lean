import CodeFence.Proofs.Document.Rounds
import CodeFence.Proofs.Document.Sweep
import CodeFence.Proofs.Engine.Plain
import Mathlib.Tactic.Choose

set_option autoImplicit false

namespace CodeFence

open Text (Lacks)

structure Page.Part where
  family : Family
  block : Block
  after : Text
  bare : ∀ other : Family, block.code.Lacks other.token
  plain : ∀ other : Family, after.Lacks other.token

structure Page where
  lead : Text
  parts : List Page.Part
  plain : ∀ other : Family, lead.Lacks other.token

namespace Page

def Part.source (part : Part) : Text :=
  part.block.write part.family

def Part.request (highlighter : Highlighter) (part : Part) : Request :=
  highlighter.request (Highlighter.code part.block.code) part.block.language

def body (shown : Part → Text) (parts : List Part) : Text :=
  parts.flatMap fun part => shown part ++ part.after

def text (page : Page) (shown : Part → Text) : Text :=
  page.lead ++ body shown page.parts

theorem body_cons (shown : Part → Text) (part : Part) (parts : List Part) :
    body shown (part :: parts) = shown part ++ (part.after ++ body shown parts) := by
  rw [body, List.flatMap_cons, List.append_assoc, body]

theorem body_congr {shown other : Part → Text} {parts : List Part} (same : ∀ part ∈ parts, shown part = other part) :
    body shown parts = body other parts := by
  induction parts with
  | nil => rfl
  | cons part parts ih =>
      rw [body_cons, body_cons, same part List.mem_cons_self, ih fun later held => same later (List.mem_cons_of_mem part held)]

-- The text has no token of the family and shares no sign with one at its ends.
def Inert (family : Family) (text : Text) : Prop :=
  text.Lacks family.token ∧ ∃ first middle last, text = first :: middle ++ [last] ∧
    first ∉ family.token ∧ last ∉ family.token

theorem inert_between {family : Family} {lead shown after : Text} (before : lead.Lacks family.token)
    (inert : Inert family shown) (behind : after.Lacks family.token) : Lacks (lead ++ (shown ++ after)) family.token := by
  obtain ⟨lacks, first, middle, last, rfl, front, back⟩ := inert
  have inner : Lacks middle family.token := Text.lacks_part lacks ⟨[first], [last], rfl⟩
  rw [List.append_assoc, List.cons_append, List.singleton_append, Text.lacks_apart front, Text.lacks_apart back]
  exact ⟨before, inner, behind⟩

theorem write_inert {own family : Family} (other : own ≠ family) {block : Block} (bare : block.code.Lacks family.token) :
    Inert family (block.write own) := by
  obtain ⟨language, code⟩ := block
  have newline : '\n' ∉ family.token := Family.outside_token family.newline_outside
  have tokens : own.token.Lacks family.token ∧ Lacks (own.opener language) family.token := by
    revert other
    cases own <;> cases family <;> cases language <;> decide
  constructor
  · rw [Block.write, List.append_assoc, List.cons_append, Text.lacks_apart newline, Text.lacks_apart newline]
    exact ⟨tokens.2, bare, tokens.1⟩
  · cases own with
    | backtick =>
        have apart : '\x60' ∉ family.token := by
          revert other
          cases family <;> decide
        refine ⟨'\x60', "``".toList ++ language.tag ++ '\n' :: code ++ '\n' :: "``".toList, '\x60', ?_, apart, apart⟩
        simp [Block.write, Family.token]
    | tilde =>
        have apart : '~' ∉ family.token := by
          revert other
          cases family <;> decide
        refine ⟨'~', "~~".toList ++ language.tag ++ '\n' :: code ++ '\n' :: "~~".toList, '~', ?_, apart, apart⟩
        simp [Block.write, Family.token]

theorem bracketed_inert {family : Family} {inner : Text} (lacks : Lacks ('<' :: inner ++ ['>']) family.token) :
    Inert family ('<' :: inner ++ ['>']) := by
  have outside := family.bracket_outside
  exact ⟨lacks, '<', inner, '>', rfl, Family.outside_token outside.1, Family.outside_token outside.2⟩

-- What a pass that shows the given parts does to a report.
structure Shows (highlighter : Highlighter) (parts : List Part) (text : Text) (start final : Report) : Prop where
  content : final.content = text
  blocks : final.blocks = start.blocks + parts.length
  skipped : final.skipped = start.skipped
  abortedAt : final.abortedAt = start.abortedAt
  requests : final.requests = start.requests ++ parts.map (Part.request highlighter)

variable {highlighter : Highlighter} {family : Family} {form html : Part → Text}

def passed (family : Family) (form html : Part → Text) (part : Part) : Text :=
  if part.family = family then html part else form part

theorem round_part {earlier : Nat} {start : Report} {part : Part} {done lead rest : Text} (own : part.family = family)
    (made : ∀ earlier, highlighter.fragment earlier part.block.code part.block.language = .ok (html part))
    (content : start.content = done ++ (lead ++ (part.source ++ rest))) (closed : family.Sealed done)
    (plain : lead.Lacks family.token) :
    ∃ second, highlighter.round earlier family start = .again second ∧
      Shows highlighter [part] (done ++ lead ++ html part ++ rest) start second ∧
      (family.Clear (html part) → family.Sealed (done ++ lead ++ html part)) := by
  subst own
  have clear := Family.clear_of_token plain
  obtain ⟨span, splice, again⟩ := @Highlighter.round_block highlighter earlier part.family start part.block done lead rest
    (part.bare part.family) content closed clear
  rw [made] at again
  refine ⟨_, again, ⟨?_, ?_, ?_, ?_, ?_⟩, fun shown => ?_⟩
  · rw [Report.splice_content, splice]
    simp [Rendering.replacement, Except.toOption]
  · exact Report.splice_blocks _ _ _
  · exact Report.splice_made rfl _ _
  · exact Report.splice_aborted _ _ _
  · exact Report.splice_requests _ _ _
  · obtain ⟨inner, shape⟩ := Highlighter.fragment_bracketed (made 0)
    rw [shape] at shown ⊢
    exact Family.sealed_bracketed (Family.sealed_clear closed clear) shown

theorem round_alone {family : Family} {block : Block} {shown : Text} (bare : ∀ other : Family, block.code.Lacks other.token)
    (made : ∀ earlier, highlighter.fragment earlier block.code block.language = .ok shown) (earlier : Nat) :
    ∃ second, highlighter.round earlier family { content := block.write family } = .again second ∧ second.content = shown ∧
      second.blocks = 1 ∧ second.skipped = 0 ∧ second.abortedAt = none ∧
      second.requests = [highlighter.request (Highlighter.code block.code) block.language] := by
  let part : Part := ⟨family, block, [], bare, fun other => Text.lacks_nil other.token_marked⟩
  have empty : family.Sealed [] := ⟨family.clear_nil, fun c final => by cases final⟩
  have nothing : Lacks [] family.token := Text.lacks_nil family.token_marked
  obtain ⟨second, again, shows, -⟩ := @round_part highlighter family (fun _ => shown) earlier
    { content := block.write family } part [] [] [] rfl made (List.append_nil _).symm empty nothing
  have content : second.content = shown := by simpa using shows.content
  exact ⟨second, again, content, shows.blocks, shows.skipped, shows.abortedAt, shows.requests⟩

theorem shows_cons {part : Part} {parts : List Part} {text between : Text} {start second final : Report}
    (first : Shows highlighter [part] between start second) (later : Shows highlighter parts text second final) :
    Shows highlighter (part :: parts) text start final := by
  refine ⟨later.content, ?_, later.skipped.trans first.skipped, later.abortedAt.trans first.abortedAt, ?_⟩
  · rw [later.blocks, first.blocks, List.length_singleton, List.length_cons, Nat.add_assoc, Nat.add_comm 1]
  · rw [later.requests, first.requests, List.append_assoc]
    rfl

theorem pass_parts {earlier bound : Nat} {parts : List Part} {start : Report} {done lead : Text}
    (own : ∀ part ∈ parts, part.family = family → form part = part.source ∧
      (∀ earlier, highlighter.fragment earlier part.block.code part.block.language = .ok (html part)) ∧
      family.Clear (html part))
    (other : ∀ part ∈ parts, part.family ≠ family → Inert family (form part))
    (content : start.content = done ++ (lead ++ body form parts)) (closed : family.Sealed done)
    (plain : lead.Lacks family.token) (enough : parts.length < bound) :
    ∃ final, highlighter.pass earlier family bound start = some final ∧
      Shows highlighter (parts.filter fun part => part.family = family)
        (done ++ (lead ++ body (passed family form html) parts)) start final := by
  induction parts generalizing bound done lead start with
  | nil =>
      obtain ⟨bound, rfl⟩ := Nat.exists_eq_add_of_le' enough
      have clear : family.locate start.content = .clear := by
        rw [content, Family.locate_sealed closed, body, List.flatMap_nil, List.append_nil,
          Family.locate_clear_iff.mpr (Family.clear_of_token plain), Located.after]
      refine ⟨start, Highlighter.pass_over (Highlighter.round_clear (Family.locate_clear_iff.mp clear)) bound, ?_⟩
      exact ⟨content, rfl, rfl, rfl, (List.append_nil _).symm⟩
  | cons part parts ih =>
      have ownLater := fun later held => own later (List.mem_cons_of_mem part held)
      have otherLater := fun later held => other later (List.mem_cons_of_mem part held)
      rw [body_cons] at content ⊢
      by_cases mine : part.family = family
      · obtain ⟨bound, rfl⟩ := Nat.exists_eq_add_of_le' (Nat.zero_lt_of_lt enough)
        obtain ⟨written, made, clear⟩ := own part List.mem_cons_self mine
        rw [written] at content
        obtain ⟨second, again, first, next⟩ := round_part mine made content closed plain
        obtain ⟨final, found, shows⟩ := ih ownLater otherLater first.content (next clear) (mine ▸ part.plain part.family)
          (Nat.lt_of_succ_lt_succ enough)
        refine ⟨final, (Highlighter.pass_again again bound).trans found, ?_⟩
        rw [List.filter_cons_of_pos (by simpa using mine), passed, if_pos mine]
        have all := shows_cons first shows
        simpa only [List.append_assoc] using all
      · have longer := inert_between plain (other part List.mem_cons_self mine) (part.plain family)
        have shorter : parts.length < bound := Nat.lt_of_succ_lt enough
        obtain ⟨final, found, shows⟩ := @ih bound start done _ ownLater otherLater
          (by rw [content, List.append_assoc, List.append_assoc]) closed longer shorter
        refine ⟨final, found, ?_⟩
        rw [List.filter_cons_of_neg (by simpa using mine), passed, if_neg mine]
        simpa only [List.append_assoc] using shows

theorem part_lacks {earlier : Nat} {part : Part} {html : Text} (plain : highlighter.engine = Engine.plain)
    (quiet : highlighter.wrapperClass.Quiet ∧ highlighter.stem.Quiet ∧ highlighter.themes.dark.Quiet ∧
      highlighter.themes.light.Quiet)
    (uncovered : part.block.code.Lacks Placeholder.tildeFence)
    (made : highlighter.fragment earlier part.block.code part.block.language = .ok html) (family : Family) :
    html.Lacks family.token := by
  have fence := family.token_fence_mark
  obtain ⟨wrapper, stem, dark, light⟩ := quiet
  cases family with
  | backtick => exact Highlighter.fragment_backtick_lacks fence (by decide) (Text.quiet_lacks fence wrapper) made
  | tilde =>
      have unmarked : highlighter.Unmarked Family.tilde.token := by
        refine ⟨Text.quiet_lacks fence wrapper, ?_, ?_⟩
        · exact Text.quiet_lacks fence (Text.quiet_append.mpr ⟨stem, dark⟩)
        · exact Text.quiet_lacks fence (Text.quiet_append.mpr ⟨stem, light⟩)
      have code := Highlighter.code_lacks fence (by decide) (part.bare .tilde) uncovered
      exact Highlighter.plain_lacks plain fence unmarked code made

theorem family_either {first second : Family} (different : first ≠ second) (family : Family) :
    family = first ∨ family = second := by
  revert different
  cases first <;> cases second <;> cases family <;> decide

theorem filter_both {first second : Family} (different : first ≠ second) (parts : List Part) :
    (parts.filter fun part => part.family = first).length + (parts.filter fun part => part.family = second).length =
      parts.length := by
  induction parts with
  | nil => rfl
  | cons part parts ih =>
      rcases family_either different part.family with mine | mine
      · have other : ¬ part.family = second := fun same => different (mine.symm.trans same)
        rw [List.filter_cons_of_pos (by simpa using mine), List.filter_cons_of_neg (by simpa using other),
          List.length_cons, List.length_cons]
        omega
      · have other : ¬ part.family = first := fun same => different (same.symm.trans mine)
        rw [List.filter_cons_of_neg (by simpa using other), List.filter_cons_of_pos (by simpa using mine),
          List.length_cons, List.length_cons]
        omega

theorem run_page (plain : highlighter.engine = Engine.plain)
    (quiet : highlighter.wrapperClass.Quiet ∧ highlighter.stem.Quiet ∧ highlighter.themes.dark.Quiet ∧
      highlighter.themes.light.Quiet)
    (page : Page) (uncovered : ∀ part ∈ page.parts, part.block.code.Lacks Placeholder.tildeFence)
    {first second : Family} (different : first ≠ second) :
    ∃ shown : Part → Text,
      (∀ part ∈ page.parts, ∀ earlier,
        highlighter.fragment earlier part.block.code part.block.language = .ok (shown part)) ∧
      ∀ earlier bound logged id, page.parts.length < bound → ∃ report,
        ({ highlighter, passes := [first, second], logged } : Preprocessor).run bound earlier (page.text Part.source) id =
          some report ∧
        report.content = page.text shown ∧ report.blocks = page.parts.length ∧ report.skipped = 0 ∧
        report.abortedAt = none ∧
        report.requests = ((page.parts.filter fun part => part.family = first) ++
          page.parts.filter fun part => part.family = second).map (Part.request highlighter) := by
  choose shown made using fun part : Part => Highlighter.plain_made plain part.block.code part.block.language
  have lacks (part : Part) (held : part ∈ page.parts) (family : Family) : (shown part).Lacks family.token :=
    part_lacks plain quiet (uncovered part held) (made part 0) family
  have clear (part : Part) (held : part ∈ page.parts) (family : Family) : family.Clear (shown part) :=
    Family.clear_of_token (lacks part held family)
  refine ⟨shown, fun part _ => made part, fun earlier bound logged id enough => ?_⟩
  let preprocessor : Preprocessor := { highlighter, passes := [first, second], logged }
  have empty (family : Family) : family.Sealed [] := ⟨family.clear_nil, fun c final => by cases final⟩
  obtain ⟨middle, firstFound, firstShows⟩ := @pass_parts highlighter first Part.source shown earlier bound page.parts
    (preprocessor.start (page.text Part.source) id) [] page.lead (fun part held _ => ⟨rfl, made part, clear part held first⟩)
    (fun part _ other => write_inert other (part.bare first)) rfl (empty first) (page.plain first) enough
  obtain ⟨final, secondFound, secondShows⟩ := @pass_parts highlighter second (passed first Part.source shown) shown earlier
    bound page.parts middle [] page.lead
    (fun part held mine => ⟨if_neg fun same => different (same.symm.trans mine), made part, clear part held second⟩)
    (fun part held other => by
      have mine := (family_either different part.family).resolve_right other
      obtain ⟨inner, shape⟩ := Highlighter.fragment_bracketed (made part 0)
      have free := lacks part held second
      rw [passed, if_pos mine]
      rw [shape] at free ⊢
      exact bracketed_inert free)
    firstShows.content (empty second) (page.plain second) enough
  have running : middle.abortedAt = none := firstShows.abortedAt
  have ended : final.abortedAt = none := secondShows.abortedAt.trans running
  refine ⟨final.finish, ?_, ?_, ?_, ?_, ended, ?_⟩
  · change highlighter.passes earlier bound [first, second] (preprocessor.start (page.text Part.source) id) = _
    simp only [Highlighter.passes, firstFound, secondFound, Option.bind_some, running, ended,
      Option.isSome_none, Bool.false_eq_true, if_false]
  · refine secondShows.content.trans (congrArg (page.lead ++ ·) (body_congr fun part _ => ?_))
    rcases family_either different part.family with mine | mine
    · have other : ¬ part.family = second := fun same => different (mine.symm.trans same)
      rw [passed, if_neg other, passed, if_pos mine]
    · rw [passed, if_pos mine]
  · refine (secondShows.blocks.trans ?_).trans (filter_both different page.parts)
    exact congrArg (· + _) (firstShows.blocks.trans (Nat.zero_add _))
  · exact secondShows.skipped.trans firstShows.skipped
  · rw [Report.finish_requests, secondShows.requests, firstShows.requests, List.map_append]
    rfl

theorem run_page_pair : ∃ report, ({ highlighter := { engine := Engine.plain }, passes := [.tilde, .backtick] } : Preprocessor).run
    3 0 "a```ts\nx\n```b~~~sh\ny\n~~~c".toList "a.md".toList = some report ∧ report.blocks = 2 ∧ report.skipped = 0 ∧
      report.abortedAt = none ∧ report.requests.map Request.language = [.sh, .ts] := by
  let script : Part := ⟨.backtick, ⟨.ts, ['x']⟩, ['b'], by rintro ⟨⟩ <;> decide, by rintro ⟨⟩ <;> decide⟩
  let shell : Part := ⟨.tilde, ⟨.sh, ['y']⟩, ['c'], by rintro ⟨⟩ <;> decide, by rintro ⟨⟩ <;> decide⟩
  let page : Page := ⟨['a'], [script, shell], by rintro ⟨⟩ <;> decide⟩
  have quiet : Text.Quiet "code-wrapper".toList ∧ defaultStem.Quiet ∧ Text.Quiet "vitesse-black".toList ∧
      Text.Quiet "rose-pine-dawn".toList := by decide
  obtain ⟨shown, -, runs⟩ := @run_page { engine := Engine.plain } rfl quiet page (by decide) .tilde .backtick (by decide)
  obtain ⟨report, found, -, blocks, skipped, abortedAt, requests⟩ := runs 0 3 false "a.md".toList (by decide)
  have written : page.text Part.source = "a```ts\nx\n```b~~~sh\ny\n~~~c".toList := by decide
  rw [written] at found
  exact ⟨report, found, blocks, skipped, abortedAt, by rw [requests]; rfl⟩

end Page
end CodeFence
