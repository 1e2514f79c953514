import CodeFence.Engine.Plain
import CodeFence.Proofs.Document.Rounds

set_option autoImplicit false

namespace CodeFence

namespace Family

theorem bracket_outside (family : Family) : family.Outside '<' ∧ family.Outside '>' := by
  cases family <;> decide

theorem sealed_bracketed {family : Family} {done inner : Text} (before : family.Clear done)
    (clear : family.Clear ('<' :: inner ++ ['>'])) : family.Sealed (done ++ ('<' :: inner ++ ['>'])) := by
  have outside := family.bracket_outside
  constructor
  · rw [List.cons_append, clear_apart outside.1]
    exact ⟨before, clear_part clear (List.suffix_cons '<' _).isInfix⟩
  · rw [← List.append_assoc, List.getLast?_append]
    simpa using outside.2

end Family

namespace Highlighter

variable {highlighter : Highlighter} {earlier : Nat} {family : Family} {text : Text}

theorem sweep_clear (located : family.locate text = .clear) : highlighter.sweep earlier family text = ⟨text, 0, none⟩ := by
  rw [sweep]
  split
  · rfl
  · simp_all
  · simp_all

theorem sweep_unclosed {opening : Opening} (located : family.locate text = .unclosed opening) :
    highlighter.sweep earlier family text = ⟨text, 1, some opening.before.byteLength⟩ := by
  rw [sweep]
  split
  · simp_all
  · simp_all
  · simp_all

theorem sweep_closed {span : Span} (located : family.locate text = .closed span) :
    highlighter.sweep earlier family text =
      (highlighter.sweep (earlier + (highlighter.rendering earlier family (span.raw family)).asked.length) family
        span.behind).after (span.before ++ (highlighter.rendering earlier family (span.raw family)).replacement) := by
  conv_lhs => rw [sweep]
  split
  · simp_all
  · simp_all
  · simp_all

-- What a pass from a document whose finished part is `done` has to do to agree with a sweep of the rest.
structure Agrees (done : Text) (start : Report) (swept : Sweep) (final : Report) : Prop where
  content : final.content = done ++ swept.content
  blocks : final.blocks = start.blocks + swept.blocks
  abortedAt : final.abortedAt = swept.abortedAt.map (done.byteLength + ·)

theorem agrees_after {done written : Text} {start second final : Report} {swept : Sweep}
    (agrees : Agrees (done ++ written) second swept final) (counted : second.blocks = start.blocks + 1) :
    Agrees done start (swept.after written) final := by
  refine ⟨?_, ?_, ?_⟩
  · rw [agrees.content, Sweep.after, List.append_assoc]
  · rw [agrees.blocks, counted, Sweep.after, Nat.add_assoc, Nat.add_comm 1]
  · rw [agrees.abortedAt, Sweep.after, Option.map_map]
    refine congrArg (Option.map · _) (funext fun n => ?_)
    rw [Function.comp_apply, Text.byteLength_append, Nat.add_assoc]

theorem pass_sweeps {bound : Nat} {done rest : Text} {start : Report} (content : start.content = done ++ rest)
    (closed : family.Sealed done) (running : start.abortedAt = none)
    (kept : ∀ report, highlighter.Reached earlier family start report → report.skipped = start.skipped)
    (unread : ∀ report span html, highlighter.Reached earlier family start report →
      family.locate report.content = .closed span →
      (highlighter.rendering (earlier + report.requests.length) family (span.raw family)).result = .ok html →
      family.Clear html)
    (enough : rest.length < bound) :
    ∃ final, highlighter.pass earlier family bound start = some final ∧
      Agrees done start (highlighter.sweep (earlier + start.requests.length) family rest) final := by
  induction bound generalizing done rest start with
  | zero => exact absurd enough (Nat.not_lt_zero _)
  | succ bound ih =>
      have whole := Family.locate_sealed closed rest
      rw [← content] at whole
      cases located : family.locate rest with
      | clear =>
          rw [located] at whole
          refine ⟨start, pass_over (round_clear (Family.locate_clear_iff.mp whole)) bound, ?_⟩
          rw [sweep_clear located]
          exact ⟨content, rfl, running⟩
      | unclosed opening =>
          rw [located] at whole
          refine ⟨_, pass_over (round_unclosed whole) bound, ?_⟩
          rw [sweep_unclosed located]
          refine ⟨content, rfl, ?_⟩
          exact congrArg some (Text.byteLength_append done opening.before)
      | closed span =>
          rw [located, Located.after] at whole
          let rendering := highlighter.rendering (earlier + start.requests.length) family (span.raw family)
          let second := start.splice ⟨done ++ span.before, span.language, span.body, span.behind⟩ rendering
          have again : highlighter.round earlier family start = .again second := round_closed whole
          have reached : highlighter.Reached earlier family start second := .next .start again
          cases made : rendering.result with
          | error fault =>
              have dropped := kept second reached
              rw [Report.splice_dropped made] at dropped
              omega
          | ok html =>
              obtain ⟨block, -, fragment⟩ := rendering_made made
              obtain ⟨inner, rfl⟩ := fragment_bracketed fragment
              have clear := unread start _ _ .start whole made
              have next : family.Sealed (done ++ span.before ++ ('<' :: inner ++ ['>'])) :=
                Family.sealed_bracketed (Family.locate_before_clear whole) clear
              have replacement : rendering.replacement = '<' :: inner ++ ['>'] := by
                rw [Rendering.replacement, made]
                rfl
              have spliced : second.content = done ++ span.before ++ ('<' :: inner ++ ['>']) ++ span.behind := by
                rw [Report.splice_content, replacement, Span.splice]
              have shorter : span.behind.length < bound := by
                have less := Family.locate_shrinks located
                omega
              obtain ⟨final, found, agrees⟩ := ih spliced next ((Report.splice_aborted _ _ _).trans running)
                (fun report later => (kept report (reached_behind again later)).trans (Report.splice_made made _ _).symm)
                (fun report other html later => unread report other html (reached_behind again later)) shorter
              have asked : earlier + second.requests.length = earlier + start.requests.length + rendering.asked.length := by
                rw [Report.splice_requests, List.length_append, Nat.add_assoc]
              rw [asked, List.append_assoc, ← replacement] at agrees
              rw [sweep_closed located]
              exact ⟨final, (pass_again again bound).trans found, agrees_after agrees (Report.splice_blocks _ _ _)⟩

end Highlighter

open Highlighter (Reached)

theorem run_sweeps {preprocessor : Preprocessor} {family : Family} (single : preprocessor.passes = [family]) {earlier : Nat}
    {text id : Text}
    (kept : ∀ report, Reached preprocessor.highlighter earlier family (preprocessor.start text id) report → report.skipped = 0)
    (unread : family = .backtick ∧ '\x60' ∉ preprocessor.highlighter.wrapperClass ∨
      ∀ report span html, Reached preprocessor.highlighter earlier family (preprocessor.start text id) report →
        family.locate report.content = .closed span →
        (preprocessor.highlighter.rendering (earlier + report.requests.length) family (span.raw family)).result = .ok html →
        family.Clear html) :
    ∀ bound, text.length < bound → ∃ report, preprocessor.run bound earlier text id = some report ∧
      report.content = (preprocessor.highlighter.sweep earlier family text).content ∧
      report.blocks = (preprocessor.highlighter.sweep earlier family text).blocks ∧
      report.abortedAt = (preprocessor.highlighter.sweep earlier family text).abortedAt := by
  intro bound enough
  have clear : ∀ report span html, Reached preprocessor.highlighter earlier family (preprocessor.start text id) report →
      family.locate report.content = .closed span →
      (preprocessor.highlighter.rendering (earlier + report.requests.length) family (span.raw family)).result = .ok html →
      family.Clear html := by
    rcases unread with ⟨rfl, plain⟩ | unread
    · intro report span html _ _ made language
      obtain ⟨block, -, fragment⟩ := Highlighter.rendering_made made
      have grave : '\x60' ∈ Family.backtick.opener language := List.mem_cons_self
      exact Highlighter.fragment_backtick_lacks (Family.backtick.opener_fence_mark language) grave
        (Text.lacks_absent grave plain) fragment
    · exact unread
  have empty : family.Sealed [] := ⟨family.clear_nil, fun c final => by cases final⟩
  obtain ⟨final, found, agrees⟩ := Highlighter.pass_sweeps rfl empty rfl kept clear enough
  have abortedAt : final.abortedAt = (preprocessor.highlighter.sweep earlier family text).abortedAt := by
    rw [agrees.abortedAt]
    simp [Text.byteLength, Report.requests, Preprocessor.start]
  have blocks := agrees.blocks.trans (Nat.zero_add _)
  by_cases aborted : final.abortedAt.isSome
  · refine ⟨final, ?_, agrees.content, blocks, abortedAt⟩
    rw [Preprocessor.run, single, Highlighter.passes, found, Option.bind_some, if_pos aborted]
  · refine ⟨final.finish, ?_, agrees.content, blocks, abortedAt⟩
    rw [Preprocessor.run, single, Highlighter.passes, found, Option.bind_some, if_neg aborted, Highlighter.passes]

theorem run_sweeps_once :
    let preprocessor : Preprocessor := { highlighter := { engine := Engine.plain }, passes := [.backtick] }
    let text : Text := "a```ts\nx\n```b".toList
    let id : Text := "a.md".toList
    (∀ report, Reached preprocessor.highlighter 0 .backtick (preprocessor.start text id) report → report.skipped = 0) ∧
      ∃ report, preprocessor.run 14 0 text id = some report ∧
        report.content = (preprocessor.highlighter.sweep 0 .backtick text).content ∧
        report.blocks = (preprocessor.highlighter.sweep 0 .backtick text).blocks ∧
        report.abortedAt = (preprocessor.highlighter.sweep 0 .backtick text).abortedAt := by
  intro preprocessor text id
  have kept : ∀ report, Reached preprocessor.highlighter 0 .backtick (preprocessor.start text id) report → report.skipped = 0 := by
    intro report reached
    let span : Span := ⟨['a'], .ts, "\nx\n".toList, ['b']⟩
    have located : Family.backtick.locate text = .closed span := by decide +kernel
    have parsed : Block.parse .backtick (span.raw .backtick) = .ok ⟨.ts, ['x']⟩ := rfl
    have again := @Highlighter.round_closed preprocessor.highlighter 0 .backtick (preprocessor.start text id) span located
    have plain : '\x60' ∉ span.splice (preprocessor.highlighter.rendering 0 .backtick (span.raw .backtick)).replacement := by
      decide +kernel
    have unmarked : Text.Lacks _ Family.backtick.token := Text.lacks_absent List.mem_cons_self plain
    have clear := Family.clear_of_token unmarked
    rw [← Report.splice_content (preprocessor.start text id)] at clear
    rcases Highlighter.reached_once again (Highlighter.round_clear clear) reached with rfl | rfl
    · rfl
    · exact Report.splice_made (congrArg Call.result (Highlighter.rendering_parsed parsed)) _ _
  exact ⟨kept, run_sweeps rfl kept (Or.inl ⟨rfl, by decide⟩) 14 (by decide)⟩

end CodeFence
