import CodeFence.Document.Preprocessor
import CodeFence.Document.Sweep
import CodeFence.Proofs.Fence.Block
import CodeFence.Proofs.Highlighter

set_option autoImplicit false

namespace CodeFence

namespace Report

theorem emit_all (events : List Event) (report : Report) : events.foldl emit report =
    { report with events := report.events ++ events, log := report.log ++ events.filterMap report.heard? } := by
  induction events generalizing report with
  | nil => simp
  | cons event events ih =>
      have heard : (report.emit event).heard? = report.heard? := rfl
      rw [List.foldl_cons, ih, heard, List.filterMap_cons]
      cases written : report.heard? event <;> simp [emit, written]

theorem splice_content (report : Report) (span : Span) (rendering : Rendering) :
    (report.splice span rendering).content = span.splice rendering.replacement := by
  unfold splice Rendering.replacement
  cases rendering.result with
  | ok html => rfl
  | error fault => rfl

theorem splice_blocks (report : Report) (span : Span) (rendering : Rendering) :
    (report.splice span rendering).blocks = report.blocks + 1 := by
  unfold splice
  cases rendering.result with
  | ok html => rfl
  | error fault => rfl

theorem splice_aborted (report : Report) (span : Span) (rendering : Rendering) :
    (report.splice span rendering).abortedAt = report.abortedAt := by
  unfold splice
  rw [emit_all]
  cases rendering.result with
  | ok html => rfl
  | error fault => rfl

theorem splice_made {rendering : Rendering} {html : Text} (made : rendering.result = .ok html) (report : Report) (span : Span) :
    (report.splice span rendering).skipped = report.skipped := by
  simp only [splice, made, emit_all]
  rfl

theorem splice_dropped {rendering : Rendering} {fault : Fault} (failed : rendering.result = .error fault)
    (report : Report) (span : Span) : (report.splice span rendering).skipped = report.skipped + 1 := by
  simp only [splice, failed]
  rfl

theorem splice_made_events {rendering : Rendering} {html : Text} (made : rendering.result = .ok html) (report : Report)
    (span : Span) : (report.splice span rendering).events =
      report.events ++ rendering.asked.map Event.asked ++ [.replaced (report.blocks + 1)] := by
  simp only [splice, made, emit_all]
  rfl

theorem splice_dropped_events {rendering : Rendering} {fault : Fault} (failed : rendering.result = .error fault)
    (report : Report) (span : Span) : (report.splice span rendering).events =
      report.events ++ rendering.asked.map Event.asked ++ [.dropped span.before.byteLength (report.blocks + 1) fault] := by
  simp only [splice, failed, emit_all]
  rfl

theorem splice_requests (report : Report) (span : Span) (rendering : Rendering) :
    (report.splice span rendering).requests = report.requests ++ rendering.asked := by
  have heard (asked : List Request) : (asked.map Event.asked).filterMap Event.request? = asked := by
    induction asked with
    | nil => rfl
    | cons request asked ih => exact congrArg (List.cons request) ih
  cases made : rendering.result with
  | ok html => simp [requests, splice_made_events made, heard, Event.request?]
  | error fault => simp [requests, splice_dropped_events made, heard, Event.request?]

theorem finish_aborted (report : Report) : report.finish.abortedAt = report.abortedAt := rfl

theorem finish_requests (report : Report) : report.finish.requests = report.requests := by
  simp [finish, emit, requests, Event.request?]

theorem unterminated_requests (report : Report) (opening : Opening) : (report.unterminated opening).requests = report.requests := by
  simp [unterminated, emit, requests, Event.request?]

end Report

namespace Highlighter

variable {highlighter : Highlighter} {earlier : Nat} {family : Family}

theorem round_clear {report : Report} (clear : family.Clear report.content) :
    highlighter.round earlier family report = .over report := by
  rw [round, Family.locate_clear_iff.mpr clear]

theorem round_unclosed {report : Report} {opening : Opening} (located : family.locate report.content = .unclosed opening) :
    highlighter.round earlier family report = .over (report.unterminated opening) := by
  rw [round, located]

theorem round_closed {report : Report} {span : Span} (located : family.locate report.content = .closed span) :
    highlighter.round earlier family report = .again
      (report.splice span (highlighter.rendering (earlier + report.requests.length) family (span.raw family))) := by
  rw [round, located]

theorem round_again {report next : Report} (again : highlighter.round earlier family report = .again next) :
    ∃ span, family.locate report.content = .closed span ∧
      next = report.splice span (highlighter.rendering (earlier + report.requests.length) family (span.raw family)) := by
  cases located : family.locate report.content with
  | clear =>
      rw [round, located] at again
      cases again
  | unclosed opening =>
      rw [round_unclosed located] at again
      cases again
  | closed span =>
      rw [round_closed located] at again
      exact ⟨span, rfl, (Round.again.inj again).symm⟩

theorem round_splices {report next : Report} (again : highlighter.round earlier family report = .again next) :
    ∃ span asked, family.locate report.content = .closed span ∧ report.content = span.splice (span.raw family) ∧
      next.content = span.splice (highlighter.rendering asked family (span.raw family)).replacement := by
  obtain ⟨span, located, rfl⟩ := round_again again
  exact ⟨span, _, located, Family.locate_parts located, Report.splice_content _ _ _⟩

theorem replacement_cases (highlighter : Highlighter) (asked : Nat) (family : Family) (raw : Text) :
    (highlighter.rendering asked family raw).replacement = [] ∨
    ∃ block, Block.parse family raw = .ok block ∧
      highlighter.fragment asked block.code block.language = .ok (highlighter.rendering asked family raw).replacement := by
  cases made : (highlighter.rendering asked family raw).result with
  | error fault =>
      rw [Rendering.replacement, made]
      exact Or.inl rfl
  | ok html =>
      obtain ⟨block, parsed, fragment⟩ := rendering_made made
      rw [Rendering.replacement, made]
      exact Or.inr ⟨block, parsed, fragment⟩

theorem rendering_block {block : Block} (inside : block.code.Lacks family.token) :
    highlighter.rendering earlier family (block.write family) =
      ⟨[highlighter.request (code block.code) block.language], highlighter.fragment earlier block.code block.language⟩ := by
  obtain ⟨kept, blanks, blank, split, parsed⟩ := Block.parse_written inside
  have asked : code (kept ++ blanks) = code kept := by rw [code, code, Directive.parse_blank blank]
  rw [rendering_parsed parsed, split, asked, fragment_blank blank]

theorem round_block {report : Report} {block : Block} {done gap rest : Text} (inside : block.code.Lacks family.token)
    (content : report.content = done ++ (gap ++ (block.write family ++ rest))) (closed : family.Sealed done) (clear : family.Clear gap) :
    ∃ span : Span, (∀ text, span.splice text = done ++ (gap ++ (text ++ rest))) ∧
      highlighter.round earlier family report = .again (report.splice span
        ⟨[highlighter.request (code block.code) block.language],
          highlighter.fragment (earlier + report.requests.length) block.code block.language⟩) := by
  have located := Family.locate_sealed closed (gap ++ (block.write family ++ rest))
  rw [Family.locate_written clear inside, ← content] at located
  have again := @round_closed highlighter earlier family report _ located
  have raw : Span.raw family ⟨done ++ gap, block.language, '\n' :: block.code ++ ['\n'], rest⟩ = block.write family := by
    simp [Span.raw, Block.write]
  rw [raw, rendering_block inside] at again
  exact ⟨_, fun text => by simp [Span.splice], again⟩

theorem pass_over {report final : Report} (ended : highlighter.round earlier family report = .over final) (bound : Nat) :
    highlighter.pass earlier family (bound + 1) report = some final := by
  rw [pass, ended]

theorem pass_again {report next : Report} (again : highlighter.round earlier family report = .again next) (bound : Nat) :
    highlighter.pass earlier family (bound + 1) report = highlighter.pass earlier family bound next := by
  rw [pass, again]

theorem pass_more {bound more : Nat} {report final : Report} (found : highlighter.pass earlier family bound report = some final)
    (enough : bound ≤ more) : highlighter.pass earlier family more report = some final := by
  induction bound generalizing more report with
  | zero => cases found
  | succ bound ih =>
      obtain ⟨rest, rfl⟩ := Nat.exists_eq_add_of_le enough
      have split : bound + 1 + rest = (bound + rest) + 1 := by omega
      rw [split]
      match here : highlighter.round earlier family report with
      | .over other =>
          rw [pass_over here] at found ⊢
          exact found
      | .again next =>
          rw [pass_again here] at found ⊢
          exact ih found (by omega)

inductive Reached (highlighter : Highlighter) (earlier : Nat) (family : Family) (start : Report) : Report → Prop
  | start : Reached highlighter earlier family start start
  | next {report next : Report} : Reached highlighter earlier family start report →
      highlighter.round earlier family report = .again next → Reached highlighter earlier family start next

theorem reached_behind {start second report : Report} (again : highlighter.round earlier family start = .again second)
    (reached : highlighter.Reached earlier family second report) : highlighter.Reached earlier family start report := by
  induction reached with
  | start => exact .next .start again
  | next _ step ih => exact .next ih step

theorem round_over {report final : Report} (ended : highlighter.round earlier family report = .over final) :
    family.Clear report.content ∧ final = report ∨
      ∃ opening, family.locate report.content = .unclosed opening ∧ final = report.unterminated opening := by
  cases located : family.locate report.content with
  | clear =>
      have clear := Family.locate_clear_iff.mp located
      rw [round_clear clear] at ended
      exact Or.inl ⟨clear, (Round.over.inj ended).symm⟩
  | unclosed opening =>
      rw [round_unclosed located] at ended
      exact Or.inr ⟨opening, rfl, (Round.over.inj ended).symm⟩
  | closed span =>
      rw [round_closed located] at ended
      cases ended

theorem pass_reached {bound : Nat} {start final : Report} (found : highlighter.pass earlier family bound start = some final) :
    ∃ last, highlighter.Reached earlier family start last ∧ highlighter.round earlier family last = .over final := by
  induction bound generalizing start with
  | zero => cases found
  | succ bound ih =>
      match step : highlighter.round earlier family start with
      | .over other =>
          rw [pass_over step, Option.some.injEq] at found
          exact ⟨start, .start, found ▸ step⟩
      | .again next =>
          rw [pass_again step] at found
          obtain ⟨last, reached, ended⟩ := ih found
          exact ⟨last, reached_behind step reached, ended⟩

theorem reached_aborted {start report : Report} (reached : highlighter.Reached earlier family start report) :
    report.abortedAt = start.abortedAt := by
  induction reached with
  | start => rfl
  | next _ step ih =>
      obtain ⟨span, -, rfl⟩ := round_again step
      rw [Report.splice_aborted, ih]

theorem reached_once {start second final report : Report} (again : highlighter.round earlier family start = .again second)
    (ended : highlighter.round earlier family second = .over final)
    (reached : highlighter.Reached earlier family start report) : report = start ∨ report = second := by
  induction reached with
  | start => exact Or.inl rfl
  | next _ step ih =>
      rcases ih with rfl | rfl
      · rw [again] at step
        exact Or.inr (Round.again.inj step).symm
      · rw [ended] at step
        cases step

theorem pass_clear {bound : Nat} {report final : Report} (found : highlighter.pass earlier family bound report = some final)
    (running : final.abortedAt = none) : family.Clear final.content := by
  obtain ⟨last, -, ended⟩ := pass_reached found
  rcases round_over ended with ⟨clear, rfl⟩ | ⟨opening, -, rfl⟩
  · exact clear
  · cases running

theorem passes_cons {bound : Nat} {families : List Family} {start final : Report}
    (found : highlighter.passes earlier bound (family :: families) start = some final) :
    (highlighter.pass earlier family bound start = some final ∧ ∃ place, final.abortedAt = some place) ∨
      ∃ middle, highlighter.pass earlier family bound start = some middle ∧ middle.abortedAt = none ∧
        highlighter.passes earlier bound families middle = some final := by
  obtain ⟨middle, passed, later⟩ := Option.bind_eq_some_iff.mp found
  cases aborted : middle.abortedAt with
  | some place =>
      rw [aborted, Option.isSome_some, if_pos rfl, Option.some.injEq] at later
      exact Or.inl ⟨later ▸ passed, place, later ▸ aborted⟩
  | none =>
      rw [aborted] at later
      exact Or.inr ⟨middle, passed, aborted, later⟩

-- This stays true of the reports of a run, whatever a round or the end of a pass does to them.
structure Invariant (highlighter : Highlighter) (earlier : Nat) (holds : Report → Prop) : Prop where
  again : ∀ {family report next}, holds report → highlighter.round earlier family report = .again next → holds next
  stop : ∀ {report} opening, holds report → holds (report.unterminated opening)
  finish : ∀ {report}, holds report → holds report.finish

namespace Invariant

variable {holds : Report → Prop} (invariant : highlighter.Invariant earlier holds) {start report final : Report} {bound : Nat}

include invariant in
theorem reached (reached : highlighter.Reached earlier family start report) (initial : holds start) : holds report := by
  induction reached with
  | start => exact initial
  | next _ step ih => exact invariant.again ih step

include invariant in
theorem pass (found : highlighter.pass earlier family bound start = some final) (initial : holds start) : holds final := by
  obtain ⟨last, reached, ended⟩ := pass_reached found
  have kept := invariant.reached reached initial
  rcases round_over ended with ⟨-, rfl⟩ | ⟨opening, -, rfl⟩
  · exact kept
  · exact invariant.stop opening kept

include invariant in
theorem passes {families : List Family} (found : highlighter.passes earlier bound families start = some final)
    (initial : holds start) : holds final := by
  induction families generalizing start with
  | nil => exact Option.some.inj found ▸ invariant.finish initial
  | cons family rest ih =>
      rcases passes_cons found with ⟨passed, -⟩ | ⟨middle, passed, -, later⟩
      · exact invariant.pass passed initial
      · exact ih later (invariant.pass passed initial)

end Invariant

theorem blocks_invariant (highlighter : Highlighter) (earlier least : Nat) :
    highlighter.Invariant earlier fun report => least ≤ report.blocks where
  again before step := by
    obtain ⟨span, -, rfl⟩ := round_again step
    rw [Report.splice_blocks]
    exact before.trans (Nat.le_succ _)
  stop _ before := before.trans (Nat.le_succ _)
  finish before := before

-- A pass from one report ends with another when it has rounds enough.
def Ends (highlighter : Highlighter) (earlier : Nat) (family : Family) (report final : Report) : Prop :=
  ∃ bound, highlighter.pass earlier family bound report = some final

def Finishes (highlighter : Highlighter) (earlier : Nat) (families : List Family) (report final : Report) : Prop :=
  ∃ bound, highlighter.passes earlier bound families report = some final

theorem ends_over {report last final : Report} (ended : highlighter.round earlier family report = .over last) :
    highlighter.Ends earlier family report final ↔ final = last := by
  constructor
  · rintro ⟨bound, found⟩
    cases bound with
    | zero => cases found
    | succ bound =>
        rw [pass_over ended] at found
        exact (Option.some.inj found).symm
  · rintro rfl
    exact ⟨1, pass_over ended 0⟩

theorem ends_again {report next final : Report} (again : highlighter.round earlier family report = .again next) :
    highlighter.Ends earlier family report final ↔ highlighter.Ends earlier family next final := by
  constructor
  · rintro ⟨bound, found⟩
    cases bound with
    | zero => cases found
    | succ bound =>
        rw [pass_again again] at found
        exact ⟨bound, found⟩
  · rintro ⟨bound, found⟩
    exact ⟨bound + 1, (pass_again again bound).trans found⟩

theorem passes_more {bound more : Nat} {families : List Family} {report final : Report}
    (found : highlighter.passes earlier bound families report = some final) (enough : bound ≤ more) :
    highlighter.passes earlier more families report = some final := by
  induction families generalizing report with
  | nil => exact found
  | cons family rest ih =>
      obtain ⟨middle, passed, later⟩ := Option.bind_eq_some_iff.mp found
      rw [passes, pass_more passed enough, Option.bind_some]
      by_cases aborted : middle.abortedAt.isSome
      · rw [if_pos aborted] at later ⊢
        exact later
      · rw [if_neg aborted] at later ⊢
        exact ih later

theorem finishes_nil {report final : Report} : highlighter.Finishes earlier [] report final ↔ final = report.finish := by
  constructor
  · rintro ⟨_, found⟩
    exact (Option.some.inj found).symm
  · rintro rfl
    exact ⟨0, rfl⟩

theorem finishes_cons {families : List Family} {report final : Report} :
    highlighter.Finishes earlier (family :: families) report final ↔ ∃ middle, highlighter.Ends earlier family report middle ∧
      if middle.abortedAt.isSome then final = middle else highlighter.Finishes earlier families middle final := by
  constructor
  · rintro ⟨bound, found⟩
    obtain ⟨middle, passed, later⟩ := Option.bind_eq_some_iff.mp found
    refine ⟨middle, ⟨bound, passed⟩, ?_⟩
    by_cases aborted : middle.abortedAt.isSome
    · rw [if_pos aborted] at later ⊢
      exact (Option.some.inj later).symm
    · rw [if_neg aborted] at later ⊢
      exact ⟨bound, later⟩
  · rintro ⟨middle, ⟨bound, passed⟩, later⟩
    by_cases aborted : middle.abortedAt.isSome
    · rw [if_pos aborted] at later
      refine ⟨bound, ?_⟩
      rw [passes, passed, Option.bind_some, if_pos aborted, later]
    · rw [if_neg aborted] at later
      obtain ⟨other, finished⟩ := later
      refine ⟨max bound other, ?_⟩
      rw [passes, pass_more passed (Nat.le_max_left bound other), Option.bind_some, if_neg aborted]
      exact passes_more finished (Nat.le_max_right bound other)

theorem finishes_reaches {before after : List Family} {start final : Report} (running : start.abortedAt = none)
    (clear : ∀ other ∈ before, other.Clear start.content)
    (finished : highlighter.Finishes earlier (before ++ family :: after) start final) :
    ∃ middle, highlighter.Ends earlier family start middle := by
  induction before with
  | nil =>
      obtain ⟨middle, ended, -⟩ := finishes_cons.mp finished
      exact ⟨middle, ended⟩
  | cons other before ih =>
      obtain ⟨middle, ended, later⟩ := finishes_cons.mp finished
      rw [(ends_over (round_clear (clear other List.mem_cons_self))).mp ended, running] at later
      exact ih (fun next held => clear next (List.mem_cons_of_mem other held)) later

theorem run_finished {preprocessor : Preprocessor} (single : preprocessor.passes = [family]) {bound : Nat} {text id : Text}
    {last : Report} (found : preprocessor.highlighter.pass earlier family bound (preprocessor.start text id) = some last)
    (running : last.abortedAt = none) : preprocessor.run bound earlier text id = some last.finish := by
  rw [Preprocessor.run, single, passes, found, Option.bind_some, running]
  rfl

theorem run_clear {preprocessor : Preprocessor} (single : preprocessor.passes = [family]) {bound : Nat} {text id : Text}
    {report : Report} (found : preprocessor.run bound earlier text id = some report) (running : report.abortedAt = none) :
    family.Clear report.content := by
  rw [Preprocessor.run, single] at found
  obtain ⟨last, passed, later⟩ := Option.bind_eq_some_iff.mp found
  by_cases aborted : last.abortedAt.isSome
  · rw [if_pos aborted, Option.some.injEq] at later
    rw [later, running] at aborted
    cases aborted
  · rw [if_neg aborted, passes, Option.some.injEq] at later
    have clear : family.Clear last.content := pass_clear passed (Option.not_isSome_iff_eq_none.mp aborted)
    rw [← later]
    exact clear

end Highlighter

theorem Preprocessor.submit_more {preprocessor : Preprocessor} {bound more earlier : Nat} {content id : Text} {outcome : Outcome}
    (found : preprocessor.submit bound earlier content id = some outcome) (enough : bound ≤ more) :
    preprocessor.submit more earlier content id = some outcome := by
  unfold submit at found ⊢
  by_cases included : preprocessor.includes id = true
  · rw [if_pos included, Option.map_eq_some_iff] at found ⊢
    exact found.imp fun report ran => ⟨Highlighter.passes_more ran.1 enough, ran.2⟩
  · rw [if_neg included] at found ⊢
    exact found

end CodeFence
