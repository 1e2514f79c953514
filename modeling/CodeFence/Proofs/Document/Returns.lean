import CodeFence.Config
import CodeFence.Proofs.Document.Opened
import CodeFence.Proofs.Document.Page

set_option autoImplicit false

namespace CodeFence

namespace Highlighter

variable {highlighter : Highlighter} {family : Family}

theorem stops_alone (steady : highlighter.engine.Steady) {block : Block} {html : Text}
    (bare : ∀ other : Family, block.code.Lacks other.token)
    (made : highlighter.fragment 0 block.code block.language = .ok html)
    (ended : ∃ final, highlighter.Ends 0 family { content := block.write family } final) :
    highlighter.Stops family html := by
  obtain ⟨final, ended⟩ := ended
  have always (earlier : Nat) := (fragment_steady steady earlier 0 block.code block.language).trans made
  obtain ⟨second, again, content, -⟩ := @Page.round_alone highlighter family block html bare always 0
  rw [← content]
  exact (stops_iff_ends steady).mpr ⟨final, (ends_again again).mp ended⟩

-- The first pass over the family of a written block comes to it and then to its fragment.
theorem stops_written (steady : highlighter.engine.Steady) {block : Block} {html : Text} {before after : List Family}
    {report : Report} (first : family ∉ before) (bare : ∀ other : Family, block.code.Lacks other.token)
    (made : highlighter.fragment 0 block.code block.language = .ok html)
    (finished : highlighter.Finishes 0 (before ++ family :: after) { content := block.write family } report) :
    highlighter.Stops family html := by
  refine stops_alone steady bare made (finishes_reaches rfl (fun other held => ?_) finished)
  have different : family ≠ other := fun same => first (same ▸ held)
  exact Family.clear_of_token (Page.write_inert different (bare other)).1

theorem finishes_always {families : List Family} (steady : highlighter.engine.Steady)
    (stops : ∀ family ∈ families, ∀ text, highlighter.Stops family text) (earlier : Nat) (report : Report) :
    ∃ final, highlighter.Finishes earlier families report final := by
  induction families generalizing report with
  | nil => exact ⟨_, finishes_nil.mpr rfl⟩
  | cons family rest ih =>
      obtain ⟨here, later⟩ := List.forall_mem_cons.mp stops
      obtain ⟨middle, ended⟩ := (@stops_iff_ends highlighter family earlier steady report).mp (here report.content)
      by_cases aborted : middle.abortedAt.isSome
      · refine ⟨middle, finishes_cons.mpr ⟨middle, ended, ?_⟩⟩
        rw [if_pos aborted]
      · obtain ⟨final, finished⟩ := ih later middle
        refine ⟨final, finishes_cons.mpr ⟨middle, ended, ?_⟩⟩
        rw [if_neg aborted]
        exact finished

end Highlighter

def fenceRows : List Substitution :=
  [(Family.backtick.token, Placeholder.backtickFence), (Family.tilde.token, Placeholder.tildeFence)]

theorem fence_rows_chosen : ∀ row ∈ fenceRows, row.swap ∈ Placeholder.table := by decide

theorem covered_bare (raw : Text) (other : Family) : (raw.substitute fenceRows).Lacks other.token :=
  Placeholder.cover_bare fence_rows_chosen (by rintro ⟨⟩ <;> decide) raw other

namespace Config

/-- Every document comes back after finitely many rounds. -/
def Returns (config : Config) : Prop :=
  ∀ text id, ∃ bound report, (config.preprocessor Engine.plain).run bound 0 text id = some report

/-- The pass over the family ends on every fragment taken as a document. -/
def Settles (config : Config) (family : Family) : Prop :=
  ∀ raw language html, (config.highlighter Engine.plain).fragment 0 raw language = .ok html →
    ∃ final, (config.highlighter Engine.plain).Ends 0 family { content := html } final

variable {config : Config} {family : Family}

theorem settles_iff_stops : config.Settles family ↔ ∀ raw language html,
    (config.highlighter Engine.plain).fragment 0 raw language = .ok html →
      (config.highlighter Engine.plain).Stops family html := by
  have steady : (config.highlighter Engine.plain).engine.Steady := Engine.plain_steady
  constructor
  · exact fun settles raw language html made => (Highlighter.stops_iff_ends steady).mpr (settles raw language html made)
  · intro stops raw language html made
    exact (@Highlighter.stops_iff_ends _ family 0 steady { content := html }).mp (stops raw language html made)

theorem returns_of_settles (settles : ∀ family ∈ config.passes, config.Settles family) : config.Returns := by
  intro text id
  have stops (family : Family) (member : family ∈ config.passes) (text : Text) :
      (config.highlighter Engine.plain).Stops family text :=
    Highlighter.stops_everywhere (settles_iff_stops.mp (settles family member)) text
  obtain ⟨report, bound, found⟩ := Highlighter.finishes_always Engine.plain_steady stops 0 { content := text }
  exact ⟨bound, report, found⟩

theorem settles_of_returns (returns : config.Returns) (member : family ∈ config.passes) : config.Settles family := by
  refine settles_iff_stops.mpr fun raw language html made => ?_
  have slashes : ∀ row ∈ fenceRows, '/' ∉ row.1 := by decide
  rw [← Highlighter.fragment_cover fence_rows_chosen slashes] at made
  obtain ⟨before, after, passes, first⟩ := List.eq_append_cons_of_mem member
  obtain ⟨bound, report, found⟩ := returns (Block.write family ⟨language, raw.substitute fenceRows⟩) []
  have finished : (config.highlighter Engine.plain).Finishes 0 (before ++ family :: after)
      { content := Block.write family ⟨language, raw.substitute fenceRows⟩ } report := ⟨bound, passes ▸ found⟩
  exact @Highlighter.stops_written _ family Engine.plain_steady ⟨language, raw.substitute fenceRows⟩ html before after report
    first (covered_bare raw) made finished

theorem planted_unsettled (plants : family.Plants config.wrapperClass.escapeMarkup) : ¬ config.Settles family := by
  intro settles
  obtain ⟨html, made⟩ := @Highlighter.plain_made (config.highlighter Engine.plain) rfl [] .json
  exact Highlighter.fragment_planted rfl plants (made 0) (settles_iff_stops.mp settles [] .json html (made 0))

theorem opened_unsettled (unstyled : (config.highlighter Engine.plain).Unstyled Family.tilde.token)
    (opens : Family.tilde.Opens config.wrapperClass.escapeMarkup) : ¬ config.Settles .tilde := by
  intro settles
  obtain ⟨raw, html, language, made, forever⟩ := @Highlighter.fragment_opened (config.highlighter Engine.plain) rfl unstyled opens
  exact forever (settles_iff_stops.mp settles raw language html made)

theorem backtick_settles (plants : ¬ Family.backtick.Plants config.wrapperClass.escapeMarkup) : config.Settles .backtick :=
  settles_iff_stops.mpr fun _ _ _ made => Highlighter.unplanted_stops plants made

theorem unopened_settles (unstyled : (config.highlighter Engine.plain).Unstyled Family.tilde.token)
    (plants : ¬ Family.tilde.Plants config.wrapperClass.escapeMarkup) (opens : ¬ Family.tilde.Opens config.wrapperClass.escapeMarkup) :
    config.Settles .tilde := by
  refine settles_iff_stops.mpr fun raw language html made => ?_
  exact Highlighter.unopened_stops rfl unstyled plants opens (Text.entire_uncovered (Highlighter.plain_entire rfl made))

theorem unmarked_settles (unmarked : ∀ language, (config.highlighter Engine.plain).Unmarked (Family.tilde.opener language)) :
    config.Settles .tilde := by
  refine settles_iff_stops.mpr fun raw language html made => ?_
  exact Highlighter.unmarked_stops rfl unmarked (Text.entire_uncovered (Highlighter.plain_entire rfl made))

theorem returns_iff_settles (config : Config) :
    (config.Returns ↔ ∀ family ∈ config.passes, config.Settles family) ∧
      (config.Settles .backtick ↔ ¬ Family.backtick.Plants config.wrapperClass.escapeMarkup) ∧
      ((config.highlighter Engine.plain).Unstyled Family.tilde.token → (config.Settles .tilde ↔
        ¬ Family.tilde.Plants config.wrapperClass.escapeMarkup ∧ ¬ Family.tilde.Opens config.wrapperClass.escapeMarkup)) ∧
      ((∀ language, (config.highlighter Engine.plain).Unmarked (Family.tilde.opener language)) → config.Settles .tilde) ∧
      (config.Settles .tilde → ¬ Family.tilde.Plants config.wrapperClass.escapeMarkup) := by
  refine ⟨⟨fun returns family member => settles_of_returns returns member, returns_of_settles⟩, ?_, ?_, unmarked_settles, ?_⟩
  · exact ⟨fun settles plants => planted_unsettled plants settles, backtick_settles⟩
  · intro unstyled
    constructor
    · exact fun settles => ⟨fun plants => planted_unsettled plants settles, fun opens => opened_unsettled unstyled opens settles⟩
    · exact fun ⟨plants, opens⟩ => unopened_settles unstyled plants opens
  · exact fun settles plants => planted_unsettled plants settles

theorem default_returns : ({} : Config).Returns := by
  obtain ⟨returns, backtick, -, unmarked, -⟩ := returns_iff_settles {}
  refine returns.mpr fun family _ => ?_
  cases family with
  | backtick =>
      refine backtick.mpr fun plants => ?_
      obtain ⟨span, located⟩ := Family.plants_closed plants
      have clear : Family.backtick.locate (Text.escapeMarkup ({} : Config).wrapperClass) = .clear := by decide
      rw [clear] at located
      cases located
  | tilde => exact unmarked default_unmarked

theorem planted_never_returns : ∃ config,
    (Config.parse "\x7b\"wrapper_class\":\"```ts\\n```\"\x7d".toList).toOption = some config ∧
      ∀ bound id, (config.preprocessor Engine.plain).run bound 0 "```ts\na\n```".toList id = none := by
  have wrapper : Text.escapeMarkup "```ts\n```".toList = "```ts\n```".toList := by decide +kernel
  have located : Family.backtick.locate "```ts\n```".toList = .closed ⟨[], .ts, ['\n'], []⟩ := by decide +kernel
  have parsed : Block.parse .backtick (Span.raw .backtick ⟨[], .ts, ['\n'], []⟩) = .ok ⟨.ts, []⟩ := rfl
  refine ⟨{ wrapperClass := "```ts\n```".toList }, by decide +kernel, fun bound id => ?_⟩
  rw [Option.eq_none_iff_forall_ne_some]
  intro report found
  have plants : Family.backtick.Plants (Text.escapeMarkup "```ts\n```".toList) := by
    rw [wrapper]
    exact .here located parsed
  have finished : (({ wrapperClass := "```ts\n```".toList } : Config).highlighter Engine.plain).Finishes 0
      ([] ++ .backtick :: [.tilde]) { content := Block.write .backtick ⟨.ts, ['a']⟩ } report := ⟨bound, found⟩
  obtain ⟨html, made⟩ := @Highlighter.plain_made (({ wrapperClass := "```ts\n```".toList } : Config).highlighter Engine.plain)
    rfl ['a'] .ts
  have bare (other : Family) : Text.Lacks ['a'] other.token := by cases other <;> decide
  have stops := @Highlighter.stops_written _ .backtick Engine.plain_steady ⟨.ts, ['a']⟩ html [] [.tilde] report
    List.not_mem_nil bare (made 0) finished
  exact Highlighter.fragment_planted rfl plants (made 0) stops

end Config
end CodeFence
