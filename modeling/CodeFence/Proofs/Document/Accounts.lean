import CodeFence.Proofs.Document.Exit
import CodeFence.Proofs.Document.Listening
import Mathlib.Data.List.Forall2

set_option autoImplicit false

namespace CodeFence

-- A block that was met: it had an end and was rendered, with success or not, or it had none.
inductive Encounter
  | closed (start : Nat) (rendering : Rendering)
  | unclosed (start : Nat)

namespace Encounter

def shown : Encounter → Bool
  | closed _ ⟨_, .ok _⟩ => true
  | _ => false

-- The block was taken out because its language is unknown, whoever found that.
def unknown : Encounter → Bool
  | closed _ ⟨_, .error (.unknownLanguage _)⟩ => true
  | _ => false

-- The block itself names no language, so the engine was not asked.
def foreign : Encounter → Bool
  | closed _ ⟨[], .error (.unknownLanguage _)⟩ => true
  | _ => false

def warning? (slug : Text) (count : Nat) : Encounter → Option Entry
  | closed start ⟨_, .error fault⟩ => Event.entry? slug (.dropped start count fault)
  | _ => none

def warnings (slug : Text) (first : Nat) (met : List Encounter) : List Entry :=
  (met.zipIdx first).filterMap fun item => item.1.warning? slug item.2

variable {slug : Text} {first : Nat}

theorem unknown_read {start : Nat} {asked : List Request} {result : Except Fault Text}
    (other : ∀ tag, result ≠ .error (.unknownLanguage tag)) : (closed start ⟨asked, result⟩).unknown = false := by
  match result with
  | .ok html => rfl
  | .error fault =>
      cases fault with
      | unknownLanguage tag => exact absurd rfl (other tag)
      | _ => rfl

theorem warnings_cons (block : Encounter) (rest : List Encounter) :
    warnings slug first (block :: rest) = (block.warning? slug first).toList ++ warnings slug (first + 1) rest := by
  rw [warnings, List.zipIdx_cons, List.filterMap_cons]
  cases block.warning? slug first with
  | none => rfl
  | some entry => rfl

theorem warnings_level {met : List Encounter} {entry : Entry} (member : entry ∈ warnings slug first met) :
    entry.level = .warn := by
  simp only [warnings, List.mem_filterMap] at member
  obtain ⟨⟨block, count⟩, -, warned⟩ := member
  match block with
  | closed start ⟨_, .error fault⟩ => exact congrArg Entry.level (Option.some.inj warned).symm
  | closed start ⟨_, .ok html⟩ => cases warned
  | unclosed start => cases warned

-- An entry warns of a block that was taken out, under the number that the block has when the first one has `first`.
def Warns (slug : Text) (first : Nat) (met : List Encounter) (entry : Entry) (count : Nat) : Prop :=
  first ≤ count ∧ ∃ start asked fault, met[count - first]? = some (closed start ⟨asked, .error fault⟩) ∧
    Event.entry? slug (.dropped start count fault) = some entry

theorem warns_behind {met : List Encounter} {entry : Entry} {count : Nat} (block : Encounter)
    (warns : Warns slug (first + 1) met entry count) : Warns slug first (block :: met) entry count := by
  obtain ⟨later, start, asked, fault, found, warned⟩ := warns
  have place : count - first = (count - (first + 1)) + 1 := by omega
  refine ⟨by omega, start, asked, fault, ?_, warned⟩
  rw [place, List.getElem?_cons_succ]
  exact found

theorem warnings_numbered (met : List Encounter) : ∃ counts : List Nat,
    List.Forall₂ (Warns slug first met) (warnings slug first met) counts ∧ counts.Pairwise (· < ·) ∧
    ∀ count ∈ counts, first ≤ count ∧ count < first + met.length := by
  induction met generalizing first with
  | nil => exact ⟨[], .nil, .nil, by simp⟩
  | cons block rest ih =>
      obtain ⟨counts, each, grow, bounds⟩ := @ih (first + 1)
      have later := each.imp fun _ _ warns => warns_behind block warns
      have further : ∀ count ∈ counts, first ≤ count ∧ count < first + (rest.length + 1) := by
        intro count held
        have bound := bounds count held
        omega
      rw [warnings_cons]
      cases warned : block.warning? slug first with
      | none => exact ⟨counts, later, grow, further⟩
      | some entry =>
          have here : Warns slug first (block :: rest) entry first := by
            match block with
            | closed start ⟨asked, .error fault⟩ =>
                exact ⟨Nat.le_refl first, start, asked, fault, by rw [Nat.sub_self, List.getElem?_cons_zero], warned⟩
            | closed start ⟨_, .ok html⟩ => cases warned
            | unclosed start => cases warned
          refine ⟨first :: counts, .cons here later, List.pairwise_cons.mpr ⟨fun count held => (bounds count held).1, grow⟩, ?_⟩
          simp only [List.forall_mem_cons, List.length_cons]
          exact ⟨by omega, further⟩

end Encounter

theorem Span.unread {family : Family} {span : Span} {fault : Fault} (unread : Block.parse family (span.raw family) = .error fault) :
    ∃ tag, fault = .unknownLanguage tag := by
  rw [Span.raw_opened] at unread
  exact Block.parse_unread unread

theorem Answer.settle_unknown {answer : Answer} {tag : Text} (settled : answer.settle = .error (.unknownLanguage tag)) :
    answer = .failure (.unknownLanguage tag) := by
  cases answer with
  | tree root => cases settled
  | failure fault => exact congrArg Answer.failure (Except.error.inj settled)
  | crash message => cases settled

namespace Report

variable {report : Report} {slug : Text}

theorem splice_entries (report : Report) (slug : Text) (span : Span) (rendering : Rendering) :
    (report.splice span rendering).entries slug =
      report.entries slug ++ ((Encounter.closed span.before.byteLength rendering).warning? slug (report.blocks + 1)).toList := by
  have silent : (rendering.asked.map Event.asked).filterMap (Event.entry? slug) = [] := by
    simp [List.filterMap_map, Function.comp_def, Event.entry?]
  obtain ⟨asked, result⟩ := rendering
  cases result with
  | ok html =>
      have events := @splice_made_events ⟨asked, .ok html⟩ html rfl report span
      simp [entries, events, Encounter.warning?, silent, Event.entry?]
  | error fault =>
      have events := @splice_dropped_events ⟨asked, .error fault⟩ fault rfl report span
      simp [entries, events, Encounter.warning?, silent, Event.entry?]

end Report

namespace Highlighter

-- The passes over the families lead from one report to another, and these are the blocks that they meet.
inductive Course (highlighter : Highlighter) (earlier : Nat) : List Family → Report → List Encounter → Report → Prop
  | finish {report : Report} : Course highlighter earlier [] report [] report.finish
  | clear {family : Family} {families : List Family} {report final : Report} {met : List Encounter} :
      family.Clear report.content → Course highlighter earlier families report met final →
      Course highlighter earlier (family :: families) report met final
  | closed {family : Family} {families : List Family} {report final : Report} {met : List Encounter} {span : Span}
      {rendering : Rendering} : family.locate report.content = .closed span →
      rendering = highlighter.rendering (earlier + report.requests.length) family (span.raw family) →
      Course highlighter earlier (family :: families) (report.splice span rendering) met final →
      Course highlighter earlier (family :: families) report (.closed span.before.byteLength rendering :: met) final
  | unclosed {family : Family} {families : List Family} {report : Report} {opening : Opening} :
      family.locate report.content = .unclosed opening →
      Course highlighter earlier (family :: families) report [.unclosed opening.before.byteLength] (report.unterminated opening)

variable {highlighter : Highlighter} {earlier bound : Nat} {family : Family} {families : List Family}
  {start last final : Report} {met : List Encounter} {slug : Text}

theorem reached_course (reached : highlighter.Reached earlier family start last)
    (course : highlighter.Course earlier (family :: families) last met final) :
    ∃ more, highlighter.Course earlier (family :: families) start (more ++ met) final := by
  induction reached generalizing met with
  | start => exact ⟨[], course⟩
  | next _ step ih =>
      obtain ⟨span, located, rfl⟩ := round_again step
      obtain ⟨more, whole⟩ := ih (.closed located rfl course)
      exact ⟨more ++ [_], by rwa [List.append_assoc]⟩

theorem passes_course (running : start.abortedAt = none)
    (found : highlighter.passes earlier bound families start = some final) :
    ∃ met, highlighter.Course earlier families start met final := by
  induction families generalizing start with
  | nil =>
      obtain rfl := Option.some.inj found
      exact ⟨[], .finish⟩
  | cons family rest ih =>
      rcases passes_cons found with ⟨passed, place, stopped⟩ | ⟨middle, passed, ended, later⟩
      · obtain ⟨last, opening, reached, located, rfl, -⟩ := pass_stopped running passed stopped
        have stops : highlighter.Course earlier (family :: rest) last [.unclosed opening.before.byteLength]
          (last.unterminated opening) := .unclosed located
        obtain ⟨more, course⟩ := reached_course reached stops
        exact ⟨_, course⟩
      · obtain ⟨met, course⟩ := ih ended later
        obtain ⟨last, reached, halted⟩ := pass_reached passed
        rcases round_over halted with ⟨clear, rfl⟩ | ⟨opening, -, rfl⟩
        · obtain ⟨more, whole⟩ := reached_course reached (.clear clear course)
          exact ⟨_, whole⟩
        · cases ended

theorem course_blocks (course : highlighter.Course earlier families start met final) :
    final.blocks = start.blocks + met.length := by
  induction course with
  | finish => rfl
  | clear _ _ ih => exact ih
  | closed _ _ _ ih =>
      rw [ih, Report.splice_blocks, List.length_cons]
      omega
  | unclosed _ => rfl

theorem course_shown (course : highlighter.Course earlier families start met final) (running : start.abortedAt = none) :
    met.length + start.skipped = met.countP Encounter.shown + final.skipped + if final.abortedAt.isSome then 1 else 0 := by
  induction course with
  | finish => simp [Report.finish, Report.emit, running]
  | clear _ _ ih => exact ih running
  | @closed family families report final met span rendering _ _ _ ih =>
      have later := ih ((Report.splice_aborted report span rendering).trans running)
      obtain ⟨asked, result⟩ := rendering
      cases result with
      | ok html =>
          rw [Report.splice_made rfl] at later
          rw [List.length_cons, List.countP_cons_of_pos rfl]
          omega
      | error fault =>
          rw [Report.splice_dropped rfl] at later
          rw [List.length_cons, List.countP_cons_of_neg Bool.false_ne_true]
          omega
  | unclosed _ => simp [Report.unterminated, Report.emit, Encounter.shown, Nat.add_comm]

theorem course_entries (course : highlighter.Course earlier families start met final) (running : start.abortedAt = none) :
    ∃ closing : Entry, closing.level = (if final.abortedAt.isSome then .error else .debug) ∧
      final.entries slug = start.entries slug ++ Encounter.warnings slug (start.blocks + 1) met ++ [closing] := by
  induction course with
  | @finish report =>
      obtain ⟨closing, written, level⟩ : ∃ closing, Event.entry? slug (.finished report.blocks) = some closing ∧
        closing.level = .debug := ⟨_, rfl, rfl⟩
      refine ⟨closing, by simp [Report.finish_aborted, running, level], ?_⟩
      simp [Report.finish, Report.emit, Report.entries, Encounter.warnings, written]
  | clear _ _ ih => exact ih running
  | @closed family families report final met span rendering _ _ _ ih =>
      obtain ⟨closing, level, later⟩ := ih ((Report.splice_aborted report span rendering).trans running)
      refine ⟨closing, level, ?_⟩
      rw [later, Report.splice_entries, Report.splice_blocks, Encounter.warnings_cons]
      simp only [List.append_assoc]
  | @unclosed family families report opening _ =>
      obtain ⟨closing, written, level⟩ : ∃ closing,
        Event.entry? slug (.unterminated opening.before.byteLength (report.blocks + 1)) = some closing ∧ closing.level = .error :=
        ⟨_, rfl, rfl⟩
      refine ⟨closing, by simp [Report.unterminated, Report.emit, level], ?_⟩
      simp [Report.unterminated, Report.emit, Report.entries, Encounter.warnings, Encounter.warning?, written]

theorem course_skipped (course : highlighter.Course earlier families start met final) (first : Nat) :
    final.skipped = start.skipped + (Encounter.warnings slug first met).length := by
  induction course generalizing first with
  | finish => rfl
  | clear _ _ ih => exact ih first
  | @closed family families report final met span rendering _ _ _ ih =>
      rw [ih (first + 1), Encounter.warnings_cons, List.length_append]
      obtain ⟨asked, result⟩ := rendering
      cases result with
      | ok html =>
          rw [Report.splice_made rfl]
          simp [Encounter.warning?]
      | error fault =>
          rw [Report.splice_dropped rfl]
          simp [Encounter.warning?, Event.entry?]
          omega
  | unclosed _ => rfl

-- Each block costs one request, save those that name no known language and the one where the run stops.
theorem course_requests (course : highlighter.Course earlier families start met final) (running : start.abortedAt = none) :
    start.requests.length + met.length =
      final.requests.length + met.countP Encounter.foreign + if final.abortedAt.isSome then 1 else 0 := by
  induction course with
  | @finish report =>
      rw [Report.finish_requests]
      simp [Report.finish_aborted, running]
  | clear _ _ ih => exact ih running
  | @closed family families report final met span rendering _ rendered _ ih =>
      have later := ih ((Report.splice_aborted report span rendering).trans running)
      rw [Report.splice_requests, List.length_append] at later
      rw [List.length_cons]
      cases parsed : Block.parse family (span.raw family) with
      | ok block =>
          rw [rendering_parsed parsed] at rendered
          rw [rendered, List.length_singleton] at later
          rw [rendered, List.countP_cons_of_neg Bool.false_ne_true]
          omega
      | error fault =>
          obtain ⟨tag, rfl⟩ := Span.unread parsed
          rw [Highlighter.rendering, parsed] at rendered
          rw [rendered, List.length_nil] at later
          rw [rendered, List.countP_cons_of_pos rfl]
          omega
  | unclosed _ =>
      rw [Report.unterminated_requests]
      simp [Report.unterminated, Report.emit, Encounter.foreign]

theorem course_unknown (course : highlighter.Course earlier families start met final)
    (quiet : ∀ earlier request tag, highlighter.engine earlier request ≠ .failure (.unknownLanguage tag)) :
    met.countP Encounter.unknown = met.countP Encounter.foreign := by
  induction course with
  | finish => rfl
  | clear _ _ ih => exact ih
  | @closed family families report final met span rendering _ rendered _ ih =>
      have same : (Encounter.closed span.before.byteLength rendering).unknown =
          (Encounter.closed span.before.byteLength rendering).foreign := by
        cases parsed : Block.parse family (span.raw family) with
        | ok block =>
            rw [rendering_parsed parsed] at rendered
            rw [rendered, Encounter.unknown_read]
            · rfl
            · intro tag failed
              apply quiet _ _ tag
              exact Answer.settle_unknown (fragment_error_iff.mp failed)
        | error fault =>
            obtain ⟨tag, rfl⟩ := Span.unread parsed
            rw [Highlighter.rendering, parsed] at rendered
            rw [rendered]
            rfl
      rw [List.countP_cons, List.countP_cons, ih, same]
  | unclosed _ => rfl

end Highlighter

-- The books of a run whose log is kept, against the blocks that it met.
structure Report.Balanced (report : Report) (slug : Text) (met : List Encounter) : Prop where
  counted : met.length = report.blocks
  blocks : report.blocks = met.countP Encounter.shown + report.skipped + if report.abortedAt.isSome then 1 else 0
  log : ∃ warnings closing, report.log = warnings ++ [closing] ∧
    warnings.length = report.skipped ∧ (∀ entry ∈ warnings, entry.level = .warn) ∧
    closing.level = (if report.abortedAt.isSome then .error else .debug) ∧
    ∃ counts, List.Forall₂ (Encounter.Warns slug 1 met) warnings counts ∧ counts.Pairwise (· < ·) ∧
      ∀ count ∈ counts, 1 ≤ count ∧ count ≤ report.blocks
  requests : report.blocks = report.requests.length + met.countP Encounter.foreign + if report.abortedAt.isSome then 1 else 0

open Highlighter

theorem run_accounts {preprocessor : Preprocessor} {bound earlier : Nat} {text id : Text} {report : Report}
    (logged : preprocessor.logged = true) (found : preprocessor.run bound earlier text id = some report) :
    (∃ met, preprocessor.highlighter.Course earlier preprocessor.passes (preprocessor.start text id) met report ∧
      report.Balanced (documentSlug id) met ∧
      ((∀ earlier request tag, preprocessor.highlighter.engine earlier request ≠ .failure (.unknownLanguage tag)) →
        met.countP Encounter.unknown = met.countP Encounter.foreign)) ∧
    ({ preprocessor with logged := false } : Preprocessor).run bound earlier text id =
      some { report with slug? := none, log := [] } := by
  obtain ⟨met, course⟩ := passes_course rfl found
  have blocks := course_blocks course
  have shown := course_shown course rfl
  have skipped := @course_skipped _ _ _ _ _ _ (documentSlug id) course 1
  have requests := course_requests course rfl
  obtain ⟨closing, level, written⟩ := @course_entries _ _ _ _ _ _ (documentSlug id) course rfl
  obtain ⟨counts, each, grow, bounds⟩ := @Encounter.warnings_numbered (documentSlug id) 1 met
  have entries : report.log = Encounter.warnings (documentSlug id) 1 met ++ [closing] := by
    rw [Preprocessor.run_logged logged found, written]
    rfl
  simp only [Preprocessor.start, Nat.zero_add, Nat.add_zero] at blocks shown skipped
  refine ⟨⟨met, course, ?_, course_unknown course⟩, Preprocessor.run_unlogged found⟩
  constructor
  · exact blocks.symm
  · rw [blocks, shown]
  · refine ⟨_, closing, entries, skipped.symm, fun _ => Encounter.warnings_level, level, counts, each, grow, fun count held => ?_⟩
    have bound := bounds count held
    omega
  · rw [blocks, ← requests]
    exact (Nat.zero_add met.length).symm

-- One block is shown, one names no known language, one is refused by the engine and one has no end.
theorem run_accounts_mixed :
    let engine := Engine.answering (.failure (.highlightEngine "down".toList)) (· = .diff) Engine.plain
    let preprocessor : Preprocessor := { highlighter := { engine }, logged := true }
    let text : Text := "```ts\na\n```\n```tsx\nb\n```\n~~~diff\nc\n~~~\n~~~sh".toList
    let id : Text := "notes/a.md".toList
    ∃ report, preprocessor.run 3 0 text id = some report ∧ report.blocks = 4 ∧ report.skipped = 2 ∧
      report.abortedAt.isSome ∧ report.requests.length = 2 ∧
      ∃ met, preprocessor.highlighter.Course 0 preprocessor.passes (preprocessor.start text id) met report ∧
        report.Balanced "notes".toList met ∧
        met.countP Encounter.unknown = met.countP Encounter.foreign := by
  intro engine preprocessor text id
  have ended : (preprocessor.run 3 0 text id).map (fun report =>
      (report.blocks, report.skipped, report.abortedAt.isSome, report.requests.length)) = some (4, 2, true, 2) := by decide +kernel
  obtain ⟨report, found, state⟩ := Option.map_eq_some_iff.mp ended
  obtain ⟨blocks, skipped, stopped, asked⟩ : report.blocks = 4 ∧ report.skipped = 2 ∧ report.abortedAt.isSome = true ∧
      report.requests.length = 2 := by simpa only [Prod.mk.injEq] using state
  have quiet (earlier : Nat) (request : Request) (tag : Text) :
      preprocessor.highlighter.engine earlier request ≠ .failure (.unknownLanguage tag) := by
    by_cases refused : request.language = .diff <;> simp [preprocessor, engine, Engine.answering, Engine.plain, refused]
  obtain ⟨⟨met, course, balanced, unknown⟩, -⟩ := @run_accounts preprocessor _ _ _ _ _ rfl found
  exact ⟨report, found, blocks, skipped, stopped, asked, met, course, balanced, unknown quiet⟩

-- An engine may find the language unknown as well. Its block is dropped for that, after the request.
theorem engine_unknown_asked :
    let engine := Engine.answering (.failure (.unknownLanguage "ts".toList)) (· = .ts) Engine.plain
    let preprocessor : Preprocessor := { highlighter := { engine }, logged := true }
    let text : Text := "```ts\na\n```".toList
    let id : Text := "a.md".toList
    ∃ report met, preprocessor.run 2 0 text id = some report ∧
      preprocessor.highlighter.Course 0 preprocessor.passes (preprocessor.start text id) met report ∧
      report.abortedAt = none ∧ report.blocks = 1 ∧ met.countP Encounter.unknown = 1 ∧ report.requests.length = 1 ∧
      report.requests.length ≠ report.blocks - 0 - met.countP Encounter.unknown := by
  intro engine preprocessor text id
  let span : Span := ⟨[], .ts, "\na\n".toList, []⟩
  let rendering := preprocessor.highlighter.rendering 0 .backtick (span.raw .backtick)
  let spliced := Report.splice (preprocessor.start text id) span rendering
  have located : Family.backtick.locate text = .closed span := by decide
  have empty : spliced.content = [] := by decide
  have clear (family : Family) : family.Clear spliced.content := empty ▸ family.clear_nil
  have course : preprocessor.highlighter.Course 0 preprocessor.passes (preprocessor.start text id) [.closed 0 rendering] spliced.finish :=
    .closed located rfl (.clear (clear .backtick) (.clear (clear .tilde) .finish))
  have found : preprocessor.run 2 0 text id = some spliced.finish := by decide +kernel
  have state : spliced.finish.abortedAt = none ∧ spliced.finish.blocks = 1 ∧
    [Encounter.closed 0 rendering].countP Encounter.unknown = 1 ∧ spliced.finish.requests.length = 1 := by decide
  obtain ⟨running, blocks, unknown, asked⟩ := state
  refine ⟨spliced.finish, _, found, course, running, blocks, unknown, asked, ?_⟩
  rw [asked, blocks, unknown]
  decide

end CodeFence
