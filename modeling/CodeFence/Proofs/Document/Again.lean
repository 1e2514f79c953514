import CodeFence.Proofs.Document.Exit
import CodeFence.Proofs.Document.Sweep

set_option autoImplicit false

namespace CodeFence

-- The passes over these families replace nothing in the text; the place is where one of them stops.
inductive Family.Rest (text : Text) : List Family → Option Nat → Prop
  | nil : Rest text [] none
  | cons {family : Family} {families : List Family} {place : Option Nat} :
      family.Clear text → Rest text families place → Rest text (family :: families) place
  | stop {family : Family} {families : List Family} {opening : Opening} :
      family.locate text = .unclosed opening → Rest text (family :: families) (some opening.before.byteLength)

structure Report.Repeats (report again : Report) : Prop where
  content : again.content = report.content
  abortedAt : again.abortedAt = report.abortedAt
  skipped : again.skipped = 0
  requests : again.requests = []
  blocks : again.blocks = if report.abortedAt.isSome then 1 else 0

namespace Highlighter

variable {highlighter : Highlighter} {earlier bound : Nat} {family other : Family} {families : List Family}
  {start report next final : Report}

def Unread (highlighter : Highlighter) (family : Family) : Prop :=
  ∀ earlier raw language html, highlighter.fragment earlier raw language = .ok html → family.Clear html

theorem graveless_unread (bare : '\x60' ∉ highlighter.wrapperClass) : highlighter.Unread .backtick :=
  fun _ _ _ _ made => Family.clear_of_token (Text.lacks_absent List.mem_cons_self (fragment_graveless bare made))

theorem round_keeps_clear (unread : highlighter.Unread other) (again : highlighter.round earlier family report = .again next)
    (kept : next.skipped = 0) (clear : report.skipped = 0 → other.Clear report.content) : other.Clear next.content := by
  obtain ⟨span, located, rfl⟩ := round_again again
  cases made : (highlighter.rendering (earlier + report.requests.length) family (span.raw family)).result with
  | error fault =>
      rw [Report.splice_dropped made] at kept
      cases kept
  | ok html =>
      rw [Report.splice_made made] at kept
      have whole := clear kept
      rw [Family.locate_parts located] at whole
      have before : other.Clear span.before := Family.clear_part whole ⟨[], _, (List.append_assoc _ _ _).symm⟩
      have behind : other.Clear span.behind := Family.clear_part whole (List.suffix_append _ _).isInfix
      obtain ⟨block, -, fragment⟩ := rendering_made made
      have inside : other.Clear html := unread _ _ _ _ fragment
      obtain ⟨inner, rfl⟩ := fragment_bracketed fragment
      rw [Report.splice_content, Rendering.replacement, made]
      exact Family.sealed_clear (Family.sealed_bracketed before inside) behind

-- Where no block is dropped, an opener that is gone stays away.
theorem clear_invariant (unread : highlighter.Unread other) (earlier : Nat) :
    highlighter.Invariant earlier fun report => report.skipped = 0 → other.Clear report.content where
  again clear step kept := round_keeps_clear unread step kept clear
  stop _ clear := clear
  finish clear := clear

theorem passes_rest (unread : ∀ family ∈ families.dropLast, highlighter.Unread family) (running : start.abortedAt = none)
    (found : highlighter.passes earlier bound families start = some final) (kept : final.skipped = 0) :
    Family.Rest final.content families final.abortedAt := by
  induction families generalizing start with
  | nil =>
      obtain rfl := Option.some.inj found
      rw [Report.finish_aborted, running]
      exact .nil
  | cons family rest ih =>
      rcases passes_cons found with ⟨passed, place, aborted⟩ | ⟨middle, passed, ended, later⟩
      · obtain ⟨last, opening, -, located, rfl, -⟩ := pass_stopped running passed aborted
        exact .stop located
      · have clear : family.Clear middle.content := pass_clear passed ended
        cases rest with
        | nil =>
            obtain rfl := Option.some.inj later
            exact .cons clear (ih (fun _ held => by cases held) ended later)
        | cons second rest =>
            have first := clear_invariant (unread family List.mem_cons_self) earlier
            exact .cons (first.passes later (fun _ => clear) kept)
              (ih (fun other held => unread other (List.mem_cons_of_mem family held)) ended later)

theorem rest_passes {place : Option Nat} (rest : Family.Rest start.content families place) (running : start.abortedAt = none)
    (earlier bound : Nat) : ∃ final, highlighter.passes earlier (bound + 1) families start = some final ∧
      final.content = start.content ∧ final.abortedAt = place ∧ final.skipped = start.skipped ∧
      final.requests = start.requests ∧ final.blocks = start.blocks + if place.isSome then 1 else 0 := by
  generalize content : start.content = text at rest
  induction rest with
  | nil => exact ⟨start.finish, rfl, content, running, rfl, start.finish_requests, rfl⟩
  | cons clear _ ih =>
      rw [passes, pass_over (round_clear (content ▸ clear)), Option.bind_some, running]
      exact ih
  | stop located =>
      rw [passes, pass_over (round_unclosed (content ▸ located))]
      exact ⟨_, rfl, content, rfl, rfl, start.unterminated_requests _, rfl⟩

end Highlighter

open Highlighter

theorem run_idempotent {preprocessor : Preprocessor} {bound earlier : Nat} {text id : Text} {report : Report}
    (passes : preprocessor.passes = Family.defaultPasses) (bare : '\x60' ∉ preprocessor.highlighter.wrapperClass)
    (found : preprocessor.run bound earlier text id = some report) (kept : report.skipped = 0) :
    ∀ later more other, ∃ again, preprocessor.run (more + 1) later report.content other = some again ∧ report.Repeats again := by
  intro later more other
  rw [Preprocessor.run, passes] at found
  have unread : ∀ family ∈ Family.defaultPasses.dropLast, preprocessor.highlighter.Unread family :=
    List.forall_mem_singleton.mpr (graveless_unread bare)
  have rest := passes_rest unread rfl found kept
  obtain ⟨again, settled, content, abortedAt, skipped, requests, blocks⟩ :=
    @rest_passes preprocessor.highlighter _ (preprocessor.start report.content other) _ rest rfl later more
  rw [Preprocessor.run, passes]
  exact ⟨again, settled, content, abortedAt, skipped, requests, blocks.trans (Nat.zero_add _)⟩

theorem run_idempotent_unclosed :
    let preprocessor : Preprocessor := { highlighter := { engine := Engine.plain, wrapperClass := "~~~\"x".toList } }
    ∃ report, preprocessor.run 3 0 "```ts\na\n```~~~md\nb\n~~~\n~~~sh\nc".toList "a.md".toList = some report ∧ report.skipped = 0 ∧
      report.blocks = 3 ∧ report.abortedAt.isSome ∧ ∃ again, preprocessor.run 1 2 report.content "b.md".toList = some again ∧ report.Repeats again := by
  intro preprocessor
  have ended : (preprocessor.run 3 0 "```ts\na\n```~~~md\nb\n~~~\n~~~sh\nc".toList "a.md".toList).map
      (fun report => (report.skipped, report.blocks, report.abortedAt.isSome)) = some (0, 3, true) := by decide +kernel
  obtain ⟨report, found, state⟩ := Option.map_eq_some_iff.mp ended
  obtain ⟨kept, counted, stopped⟩ : report.skipped = 0 ∧ report.blocks = 3 ∧ report.abortedAt.isSome = true := by
    simpa only [Prod.mk.injEq] using state
  exact ⟨report, found, kept, counted, stopped, run_idempotent rfl (by decide) found kept 2 0 _⟩

end CodeFence
