import CodeFence.Proofs.Document.Rounds

set_option autoImplicit false

namespace CodeFence

namespace Report

def entries (report : Report) (slug : Text) : List Entry :=
  report.events.filterMap (Event.entry? slug)

def Logged (slug? : Option Text) (report : Report) : Prop :=
  report.slug? = slug? ∧ report.log = slug?.elim [] report.entries

def silent (report : Report) : Report :=
  { report with slug? := none, log := [] }

theorem emit_logged {slug? : Option Text} {report : Report} (logged : report.Logged slug?) (event : Event) :
    (report.emit event).Logged slug? := by
  obtain ⟨slug, log⟩ := logged
  refine ⟨slug, ?_⟩
  cases slug? with
  | none => simp [emit, heard?, slug, log]
  | some slug? => cases written : event.entry? slug? <;> simp [emit, heard?, entries, slug, log, written]

theorem hear_logged {slug? : Option Text} {report : Report} (logged : report.Logged slug?) (events : List Event) :
    (events.foldl emit report).Logged slug? := by
  induction events generalizing report with
  | nil => exact logged
  | cons event events ih => exact ih (emit_logged logged event)

theorem splice_logged {slug? : Option Text} {report : Report} (logged : report.Logged slug?) (span : Span)
    (rendering : Rendering) : (report.splice span rendering).Logged slug? := by
  have heard := hear_logged logged (rendering.asked.map Event.asked)
  unfold splice
  cases rendering.result with
  | ok html => exact emit_logged heard _
  | error fault => exact emit_logged heard _

theorem hear_silent (events : List Event) (report : Report) :
    (events.foldl emit report).silent = events.foldl emit report.silent := by
  induction events generalizing report with
  | nil => rfl
  | cons event events ih => exact ih (report.emit event)

theorem splice_silent (report : Report) (span : Span) (rendering : Rendering) :
    (report.splice span rendering).silent = report.silent.splice span rendering := by
  unfold splice
  rw [← hear_silent]
  cases rendering.result with
  | ok html => rfl
  | error fault => rfl

end Report

def Round.silent : Round → Round
  | .over report => .over report.silent
  | .again report => .again report.silent

namespace Highlighter

variable {highlighter : Highlighter} {earlier bound : Nat} {family : Family} {families : List Family}

theorem logged_invariant (highlighter : Highlighter) (earlier : Nat) (slug? : Option Text) :
    highlighter.Invariant earlier (Report.Logged slug?) where
  again logged step := by
    obtain ⟨span, -, rfl⟩ := round_again step
    exact Report.splice_logged logged span _
  stop _ logged := Report.emit_logged logged _
  finish logged := Report.emit_logged logged _

theorem round_silent (highlighter : Highlighter) (earlier : Nat) (family : Family) (report : Report) :
    highlighter.round earlier family report.silent = (highlighter.round earlier family report).silent := by
  cases located : family.locate report.content with
  | clear =>
      have clear := Family.locate_clear_iff.mp located
      rw [round_clear clear, @round_clear highlighter earlier family report.silent clear]
      rfl
  | unclosed opening =>
      rw [round_unclosed located, @round_unclosed highlighter earlier family report.silent opening located]
      rfl
  | closed span =>
      rw [round_closed located, @round_closed highlighter earlier family report.silent span located]
      exact congrArg Round.again (Report.splice_silent report span _).symm

theorem pass_silent (highlighter : Highlighter) (earlier : Nat) (family : Family) (bound : Nat) (report : Report) :
    highlighter.pass earlier family bound report.silent = (highlighter.pass earlier family bound report).map Report.silent := by
  induction bound generalizing report with
  | zero => rfl
  | succ bound ih =>
      have silent := round_silent highlighter earlier family report
      rcases step : highlighter.round earlier family report with final | next
      · rw [pass_over step, pass_over (silent.trans (congrArg Round.silent step)), Option.map_some]
      · rw [pass_again step, pass_again (silent.trans (congrArg Round.silent step)), ih]

theorem passes_silent (highlighter : Highlighter) (earlier bound : Nat) (families : List Family) (report : Report) :
    highlighter.passes earlier bound families report.silent =
      (highlighter.passes earlier bound families report).map Report.silent := by
  induction families generalizing report with
  | nil => rfl
  | cons family families ih =>
      rw [passes, passes, pass_silent]
      cases highlighter.pass earlier family bound report with
      | none => rfl
      | some next =>
          have same : next.silent.abortedAt = next.abortedAt := rfl
          rw [Option.map_some, Option.bind_some, Option.bind_some, same]
          by_cases aborted : next.abortedAt.isSome
          · rw [if_pos aborted, if_pos aborted, Option.map_some]
          · rw [if_neg aborted, if_neg aborted, ih]

end Highlighter

namespace Preprocessor

variable {preprocessor : Preprocessor} {bound earlier : Nat} {text id : Text} {report : Report}

theorem start_logged (preprocessor : Preprocessor) (text id : Text) :
    (preprocessor.start text id).Logged (if preprocessor.logged then some (documentSlug id) else none) := by
  by_cases logged : preprocessor.logged <;> simp [start, Report.Logged, Report.entries, logged]

theorem run_logged (logged : preprocessor.logged = true) (found : preprocessor.run bound earlier text id = some report) :
    report.log = report.entries (documentSlug id) := by
  have kept := (preprocessor.highlighter.logged_invariant earlier _).passes found (preprocessor.start_logged text id)
  rw [if_pos logged] at kept
  exact kept.2

theorem run_log_mem {entry : Entry} (found : preprocessor.run bound earlier text id = some report) (written : entry ∈ report.log) :
    entry ∈ report.entries (documentSlug id) := by
  have kept := (preprocessor.highlighter.logged_invariant earlier _).passes found (preprocessor.start_logged text id)
  by_cases logged : preprocessor.logged = true
  · rwa [run_logged logged found] at written
  · rw [if_neg logged] at kept
    rw [kept.2] at written
    cases written

-- Whether anyone listens to the log changes nothing else.
theorem run_unlogged (found : preprocessor.run bound earlier text id = some report) :
    ({ preprocessor with logged := false } : Preprocessor).run bound earlier text id = some report.silent :=
  (preprocessor.highlighter.passes_silent earlier bound preprocessor.passes (preprocessor.start text id)).trans
    (congrArg (Option.map Report.silent) found)

end Preprocessor
end CodeFence
