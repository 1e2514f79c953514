import CodeFence.Engine.Plain
import CodeFence.Proofs.Document.Rounds

set_option autoImplicit false

namespace CodeFence

def Event.number? : Event → Option Nat
  | replaced count => some count
  | dropped _ count _ => some count
  | unterminated _ count => some count
  | _ => none

namespace Report

def Numbered (report : Report) : Prop :=
  report.events.filterMap Event.number? = List.range' 1 report.blocks

theorem numbered_next {report next : Report} {heard : List Event} {settled : Event} (numbered : report.Numbered)
    (silent : heard.filterMap Event.number? = []) (number : settled.number? = some (report.blocks + 1))
    (events : next.events = report.events ++ heard ++ [settled]) (counted : next.blocks = report.blocks + 1) : next.Numbered := by
  have before : report.events.filterMap Event.number? = List.range' 1 report.blocks := numbered
  rw [Numbered, events, counted, List.filterMap_append, List.filterMap_append, silent, before, List.range'_1_concat,
    List.append_nil, Nat.add_comm 1]
  simp [number]

theorem splice_numbered {report : Report} (numbered : report.Numbered) (span : Span) (rendering : Rendering) :
    (report.splice span rendering).Numbered := by
  have silent : (rendering.asked.map Event.asked).filterMap Event.number? = [] := by
    simp [List.filterMap_map, Function.comp_def, Event.number?]
  cases made : rendering.result with
  | ok html =>
      exact numbered_next numbered silent rfl (splice_made_events made report span) (splice_blocks _ _ _)
  | error fault =>
      exact numbered_next numbered silent rfl (splice_dropped_events made report span) (splice_blocks _ _ _)

theorem unterminated_numbered {report : Report} (numbered : report.Numbered) (opening : Opening) :
    (report.unterminated opening).Numbered := by
  have events : (report.unterminated opening).events =
      report.events ++ [] ++ [.unterminated opening.before.byteLength (report.blocks + 1)] := by
    rw [List.append_nil]
    rfl
  exact numbered_next numbered rfl rfl events rfl

theorem finish_numbered {report : Report} (numbered : report.Numbered) : report.finish.Numbered := by
  have before : report.events.filterMap Event.number? = List.range' 1 report.blocks := numbered
  have events : report.finish.events = report.events ++ [.finished report.blocks] := rfl
  rw [Numbered, events, List.filterMap_append, before]
  exact List.append_nil _

end Report

namespace Highlighter

variable {highlighter : Highlighter} {earlier bound : Nat} {family : Family}

theorem numbered_invariant (highlighter : Highlighter) (earlier : Nat) : highlighter.Invariant earlier Report.Numbered where
  again numbered step := by
    obtain ⟨span, -, rfl⟩ := round_again step
    exact Report.splice_numbered numbered _ _
  stop opening numbered := Report.unterminated_numbered numbered opening
  finish numbered := Report.finish_numbered numbered

theorem pass_stopped {start final : Report} {place : Nat} (running : start.abortedAt = none)
    (found : highlighter.pass earlier family bound start = some final) (stopped : final.abortedAt = some place) :
    ∃ last opening, highlighter.Reached earlier family start last ∧ family.locate last.content = .unclosed opening ∧
      final = last.unterminated opening ∧ place = opening.before.byteLength := by
  obtain ⟨last, reached, ended⟩ := pass_reached found
  rcases round_over ended with ⟨-, rfl⟩ | ⟨opening, located, rfl⟩
  · rw [reached_aborted reached, running] at stopped
    cases stopped
  · exact ⟨last, opening, reached, located, rfl, (Option.some.inj stopped).symm⟩

inductive Completes (highlighter : Highlighter) (earlier bound : Nat) : List Family → Report → Report → Prop
  | nil {report : Report} : Completes highlighter earlier bound [] report report
  | cons {family : Family} {rest : List Family} {report next last : Report} :
      highlighter.pass earlier family bound report = some next → next.abortedAt = none →
      Completes highlighter earlier bound rest next last → Completes highlighter earlier bound (family :: rest) report last

variable {before families : List Family} {start middle last final : Report}

theorem completes_passes (completes : highlighter.Completes earlier bound before start middle) (after : List Family) :
    highlighter.passes earlier bound (before ++ after) start = highlighter.passes earlier bound after middle := by
  induction completes with
  | nil => rfl
  | cons found running _ ih =>
      rw [List.cons_append, passes, found, Option.bind_some, running]
      exact ih

theorem completes_running (completes : highlighter.Completes earlier bound families start last)
    (running : start.abortedAt = none) : last.abortedAt = none := by
  induction completes with
  | nil => exact running
  | cons _ ended _ ih => exact ih ended

theorem completes_clear (completes : highlighter.Completes earlier bound families start last) :
    ∀ family ∈ families.getLast?, family.Clear last.content := by
  induction completes with
  | nil =>
      intro family held
      cases held
  | @cons family rest report next last found ended completes ih =>
      cases rest with
      | nil =>
          cases completes
          rintro other ⟨⟩
          exact pass_clear found ended
      | cons second rest => rwa [List.getLast?_cons_cons]

theorem passes_cases (found : highlighter.passes earlier bound families start = some final) :
    (∃ last, highlighter.Completes earlier bound families start last ∧ final = last.finish) ∨
    ∃ before family after middle place, families = before ++ family :: after ∧
      highlighter.Completes earlier bound before start middle ∧
      highlighter.pass earlier family bound middle = some final ∧ final.abortedAt = some place := by
  induction families generalizing start with
  | nil => exact Or.inl ⟨start, .nil, (Option.some.inj found).symm⟩
  | cons family rest ih =>
      rcases passes_cons found with ⟨passed, place, stopped⟩ | ⟨next, passed, running, later⟩
      · exact Or.inr ⟨[], family, rest, start, place, rfl, .nil, passed, stopped⟩
      · rcases ih later with ⟨last, completes, ended⟩ | ⟨before, other, after, middle, place, split, completes, stopped⟩
        · exact Or.inl ⟨last, .cons passed running completes, ended⟩
        · exact Or.inr ⟨family :: before, other, after, middle, place, congrArg (List.cons family) split,
            .cons passed running completes, stopped⟩

theorem stopped_passes {place : Nat} (completes : highlighter.Completes earlier bound before start middle)
    (found : highlighter.pass earlier family bound middle = some final) (stopped : final.abortedAt = some place)
    (later : List Family) : highlighter.passes earlier bound (before ++ family :: later) start = some final := by
  rw [completes_passes completes, passes, found, Option.bind_some, stopped]
  rfl

end Highlighter

open Highlighter

theorem run_exit {preprocessor : Preprocessor} {bound earlier : Nat} {text id : Text} {report : Report}
    (found : preprocessor.run bound earlier text id = some report) :
    (∀ place, report.abortedAt = some place → ∃ before family after, ∃ opening : Opening,
      preprocessor.passes = before ++ family :: after ∧
      opening.Leftmost family report.content ∧ place = opening.before.byteLength ∧
      opening.behind.Lacks family.token ∧
      (∀ later, ({ preprocessor with passes := before ++ family :: later } : Preprocessor).run bound earlier text id = some report) ∧
      report.Numbered ∧ report.events.getLast? = some (.unterminated place report.blocks)) ∧
    (report.abortedAt = none → ∀ family ∈ preprocessor.passes.getLast?, family.Clear report.content) := by
  rcases passes_cases found with ⟨last, completes, rfl⟩ | ⟨before, family, after, middle, place, split, completes, passed, stopped⟩
  · have running : last.abortedAt = none := completes_running completes rfl
    have clear := completes_clear completes
    refine ⟨fun place stopped => ?_, fun _ => clear⟩
    rw [Report.finish_aborted, running] at stopped
    cases stopped
  · refine ⟨fun other same => ?_, fun running => ?_⟩
    · obtain ⟨last, opening, -, located, unclosed, bytes⟩ := pass_stopped (completes_running completes rfl) passed same
      obtain ⟨opened, lacks⟩ := Family.locate_unclosed_iff.mp located
      have content : report.content = last.content := by
        rw [unclosed]
        rfl
      refine ⟨before, family, after, opening, split, content ▸ Family.findOpening_least opened, bytes, lacks,
        stopped_passes completes passed stopped, (numbered_invariant _ _).passes found rfl, ?_⟩
      rw [unclosed, bytes]
      exact List.getLast?_concat
    · rw [stopped] at running
      cases running

-- The second of three passes meets the block that is not closed.
theorem run_exit_second :
    let preprocessor : Preprocessor := { highlighter := { engine := Engine.plain }, passes := [.backtick, .tilde, .backtick] }
    ∃ report, preprocessor.run 2 0 "é~~~svelte\n```ts\n```".toList "a.md".toList = some report ∧
      report.abortedAt = some 2 ∧ report.blocks = 2 ∧
      (∃ before family after, ∃ opening : Opening, preprocessor.passes = before ++ family :: after ∧
        opening.Leftmost family report.content ∧ 2 = opening.before.byteLength ∧ opening.behind.Lacks family.token ∧
        (∀ later, ({ preprocessor with passes := before ++ family :: later } : Preprocessor).run 2 0
          "é~~~svelte\n```ts\n```".toList "a.md".toList = some report) ∧
        report.Numbered ∧ report.events.getLast? = some (.unterminated 2 report.blocks)) := by
  intro preprocessor
  have ended : (preprocessor.run 2 0 "é~~~svelte\n```ts\n```".toList "a.md".toList).map (fun report => (report.abortedAt, report.blocks)) =
      some (some 2, 2) := by decide +kernel
  obtain ⟨report, found, state⟩ := Option.map_eq_some_iff.mp ended
  obtain ⟨stopped, counted⟩ := Prod.mk.inj state
  exact ⟨report, found, stopped, counted, (run_exit found).1 2 stopped⟩

end CodeFence
