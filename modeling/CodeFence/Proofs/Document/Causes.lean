import CodeFence.Proofs.Document.Exit
import CodeFence.Proofs.Document.Listening
import CodeFence.Proofs.Fence.Named

set_option autoImplicit false

namespace CodeFence

namespace Highlighter

-- Why a block that was met cannot be shown, when the engine has had so many requests.
inductive Cause (highlighter : Highlighter) (asked : Nat) (family : Family) (span : Span) : Fault → Prop
  | unnamed {tag : Text} : Block.parse family (span.raw family) = .error (.unknownLanguage tag) →
      span.language.tag <+: tag → span.language.tag ≠ tag → Cause highlighter asked family span (.unknownLanguage tag)
  | engine {raw : Text} {fault : Fault} : Block.parse family (span.raw family) = .ok ⟨span.language, raw⟩ →
      (highlighter.engine asked (highlighter.request (code raw) span.language)).settle = .error fault →
      Cause highlighter asked family span fault

-- The passes over the families come to a document in which they find a block.
inductive Meets (highlighter : Highlighter) (earlier bound : Nat) (families : List Family) (start : Report) :
    Family → Report → Span → Prop
  | block {before after : List Family} {family : Family} {middle report : Report} {span : Span} :
      families = before ++ family :: after → highlighter.Completes earlier bound before start middle →
      highlighter.Reached earlier family middle report → family.locate report.content = .closed span →
      Meets highlighter earlier bound families start family report span

-- The event is that a block which the passes meet is taken out for a cause, under its place and its number.
def Drops (highlighter : Highlighter) (earlier bound : Nat) (families : List Family) (start : Report) (event : Event) : Prop :=
  ∃ family report span fault, highlighter.Meets earlier bound families start family report span ∧
    highlighter.Cause (earlier + report.requests.length) family span fault ∧
    event = .dropped span.before.byteLength (report.blocks + 1) fault

variable {highlighter : Highlighter} {earlier bound asked : Nat} {family : Family} {families : List Family}
  {start last final : Report} {span : Span}

theorem rendering_cause {text : Text} {fault : Fault} (located : family.locate text = .closed span)
    (failed : (highlighter.rendering asked family (span.raw family)).result = .error fault) :
    highlighter.Cause asked family span fault := by
  rcases Block.parse_located located with ⟨raw, parsed⟩ | ⟨tag, unread, longer, other⟩
  · rw [rendering_parsed parsed] at failed
    exact .engine parsed (fragment_error_iff.mp failed)
  · rw [rendering, unread] at failed
    obtain rfl := Except.error.inj failed
    exact .unnamed unread longer other

theorem splice_dropped_mem {report : Report} {rendering : Rendering} {place count : Nat} {fault : Fault}
    (dropped : .dropped place count fault ∈ (report.splice span rendering).events) :
    .dropped place count fault ∈ report.events ∨
      rendering.result = .error fault ∧ place = span.before.byteLength ∧ count = report.blocks + 1 := by
  cases made : rendering.result with
  | ok html =>
      rw [Report.splice_made_events made] at dropped
      exact Or.inl (by simpa using dropped)
  | error cause =>
      rw [Report.splice_dropped_events made] at dropped
      have either : .dropped place count fault ∈ report.events ∨
          place = span.before.byteLength ∧ count = report.blocks + 1 ∧ fault = cause := by
        simpa using dropped
      rcases either with before | ⟨here, number, rfl⟩
      · exact Or.inl before
      · exact Or.inr ⟨rfl, here, number⟩

theorem reached_dropped {place count : Nat} {fault : Fault} (reached : highlighter.Reached earlier family start last)
    (dropped : .dropped place count fault ∈ last.events) : .dropped place count fault ∈ start.events ∨
      ∃ report span, highlighter.Reached earlier family start report ∧ family.locate report.content = .closed span ∧
        highlighter.Cause (earlier + report.requests.length) family span fault ∧
        place = span.before.byteLength ∧ count = report.blocks + 1 := by
  induction reached with
  | start => exact Or.inl dropped
  | @next report next before step ih =>
      obtain ⟨span, located, rfl⟩ := round_again step
      rcases splice_dropped_mem dropped with old | ⟨failed, here, number⟩
      · exact ih old
      · exact Or.inr ⟨report, span, before, located, rendering_cause located failed, here, number⟩

theorem pass_dropped {place count : Nat} {fault : Fault} (found : highlighter.pass earlier family bound start = some final)
    (dropped : .dropped place count fault ∈ final.events) (after : List Family) : .dropped place count fault ∈ start.events ∨
      highlighter.Drops earlier bound (family :: after) start (.dropped place count fault) := by
  obtain ⟨last, reached, ended⟩ := pass_reached found
  have old : .dropped place count fault ∈ last.events := by
    rcases round_over ended with ⟨-, rfl⟩ | ⟨opening, -, rfl⟩
    · exact dropped
    · simpa [Report.unterminated, Report.emit] using dropped
  rcases reached_dropped reached old with before | ⟨report, span, there, located, cause, rfl, rfl⟩
  · exact Or.inl before
  · exact Or.inr ⟨family, report, span, fault, .block rfl .nil there located, cause, rfl⟩

theorem drops_behind {middle : Report} {event : Event} (found : highlighter.pass earlier family bound start = some middle)
    (running : middle.abortedAt = none) (drops : highlighter.Drops earlier bound families middle event) :
    highlighter.Drops earlier bound (family :: families) start event := by
  obtain ⟨other, report, span, fault, meets, cause, same⟩ := drops
  cases meets with
  | block split completes reached located =>
      have whole := congrArg (List.cons family) split
      exact ⟨other, report, span, fault, .block whole (.cons found running completes) reached located, cause, same⟩

theorem passes_dropped {place count : Nat} {fault : Fault} (found : highlighter.passes earlier bound families start = some final)
    (dropped : .dropped place count fault ∈ final.events) : .dropped place count fault ∈ start.events ∨
      highlighter.Drops earlier bound families start (.dropped place count fault) := by
  induction families generalizing start with
  | nil =>
      obtain rfl := Option.some.inj found
      exact Or.inl (by simpa [Report.finish, Report.emit] using dropped)
  | cons family rest ih =>
      rcases passes_cons found with ⟨passed, -⟩ | ⟨middle, passed, running, later⟩
      · exact pass_dropped passed dropped rest
      · rcases ih later with old | drops
        · exact pass_dropped passed old rest
        · exact Or.inr (drops_behind passed running drops)

end Highlighter

theorem Event.warn_dropped {slug : Text} {event : Event} {entry : Entry} (written : event.entry? slug = some entry)
    (warns : entry.level = .warn) : ∃ place count fault, event = .dropped place count fault := by
  cases event with
  | dropped place count fault => exact ⟨place, count, fault, rfl⟩
  | asked request => cases written
  | replaced count => cases written
  | unterminated place count =>
      obtain rfl := Option.some.inj written
      cases warns
  | finished count =>
      obtain rfl := Option.some.inj written
      cases warns

theorem run_warned {preprocessor : Preprocessor} {bound earlier : Nat} {text id : Text} {report : Report} {entry : Entry}
    (found : preprocessor.run bound earlier text id = some report) (logged : entry ∈ report.log)
    (warns : entry.level = .warn) : ∃ event, Event.entry? (documentSlug id) event = some entry ∧
      preprocessor.highlighter.Drops earlier bound preprocessor.passes (preprocessor.start text id) event := by
  have kept := Preprocessor.run_log_mem found logged
  obtain ⟨event, member, written⟩ := List.mem_filterMap.mp kept
  obtain ⟨place, count, fault, rfl⟩ := Event.warn_dropped written warns
  rcases Highlighter.passes_dropped found member with before | drops
  · cases before
  · exact ⟨_, written, drops⟩

theorem warnings_caused :
    (∀ (family : Family) (text : Text) (span : Span), family.locate text = .closed span →
      (∀ block, Block.parse family (span.raw family) = .ok block → block.language = span.language) ∧
      ∀ fault, Block.parse family (span.raw family) = .error fault →
        ∃ tag, fault = .unknownLanguage tag ∧ span.language.tag <+: tag ∧ span.language.tag ≠ tag) ∧
    ∀ (preprocessor : Preprocessor) (bound earlier : Nat) (text id : Text) (report : Report),
      preprocessor.run bound earlier text id = some report →
      ∀ entry ∈ report.log, entry.level = .warn →
        ∃ event, Event.entry? (documentSlug id) event = some entry ∧
          preprocessor.highlighter.Drops earlier bound preprocessor.passes (preprocessor.start text id) event := by
  constructor
  · intro family text span located
    rcases Block.parse_located located with ⟨code, parsed⟩ | ⟨tag, unread, longer, other⟩
    · rw [parsed]
      refine ⟨fun block same => ?_, fun fault same => ?_⟩
      · rw [← Except.ok.inj same]
      · cases same
    · rw [unread]
      refine ⟨fun block same => ?_, fun fault same => ?_⟩
      · cases same
      · exact ⟨tag, (Except.error.inj same).symm, longer, other⟩
  · intro preprocessor bound earlier text id report found entry logged warns
    exact run_warned found logged warns

-- The token behind the first tag stands on its line and goes on with its name; the engine fails on the second block.
theorem warnings_caused_both :
    let engine := Engine.answering (.failure (.highlightEngine "down".toList)) (· = .diff) Engine.plain
    let preprocessor : Preprocessor := { highlighter := { engine }, logged := true }
    let text : Text := "a```js```b~~~diff\nc\n~~~".toList
    let id : Text := "notes/a.md".toList
    let span : Span := ⟨['a'], .js, [], "b~~~diff\nc\n~~~".toList⟩
    Family.backtick.locate text = .closed span ∧
      Block.parse .backtick (span.raw .backtick) = .error (.unknownLanguage "js```".toList) ∧
      (∃ tag, Fault.unknownLanguage "js```".toList = .unknownLanguage tag ∧ Language.js.tag <+: tag ∧ Language.js.tag ≠ tag) ∧
      ∃ report, preprocessor.run 2 0 text id = some report ∧
        report.log.map Entry.level = [.warn, .warn, .debug] ∧
        ∀ entry ∈ report.log, entry.level = .warn →
          ∃ event, Event.entry? (documentSlug id) event = some entry ∧
            preprocessor.highlighter.Drops 0 2 preprocessor.passes (preprocessor.start text id) event := by
  intro engine preprocessor text id span
  have located : Family.backtick.locate text = .closed span := by decide +kernel
  have unread : Block.parse .backtick (span.raw .backtick) = .error (.unknownLanguage "js```".toList) := by decide +kernel
  have ended : (preprocessor.run 2 0 text id).map (fun report => report.log.map Entry.level) =
      some [.warn, .warn, .debug] := by decide +kernel
  obtain ⟨report, found, levels⟩ := Option.map_eq_some_iff.mp ended
  obtain ⟨parsed, warned⟩ := warnings_caused
  have longer := (parsed .backtick text span located).2 _ unread
  exact ⟨located, unread, longer, report, found, levels, warned preprocessor 2 0 text id report found⟩

end CodeFence
