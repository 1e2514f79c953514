import CodeFence.Proofs.Document.Rounds
import CodeFence.Proofs.Engine.Registry
import CodeFence.Proofs.Engine.Sparing

set_option autoImplicit false

namespace CodeFence

namespace Highlighter

-- The pass from one report ends with another after so many rounds that splice a block.
inductive Splices (highlighter : Highlighter) (earlier : Nat) (family : Family) : Nat → Report → Report → Prop
  | stop {report final : Report} : highlighter.round earlier family report = .over final →
      Splices highlighter earlier family 0 report final
  | again {spliced : Nat} {report next final : Report} : highlighter.round earlier family report = .again next →
      Splices highlighter earlier family spliced next final → Splices highlighter earlier family (spliced + 1) report final

variable {highlighter : Highlighter} {earlier : Nat} {family : Family}

theorem splices_pass {spliced : Nat} {start final : Report} (splices : highlighter.Splices earlier family spliced start final)
    (bound : Nat) : highlighter.pass earlier family bound start = if spliced < bound then some final else none := by
  induction splices generalizing bound with
  | stop ended =>
      cases bound with
      | zero => rfl
      | succ bound => rw [pass_over ended, if_pos (Nat.succ_pos bound)]
  | again step _ ih =>
      cases bound with
      | zero => rfl
      | succ bound =>
          rw [pass_again step, ih]
          simp only [Nat.add_lt_add_iff_right]

theorem splices_clear {spliced : Nat} {start final : Report} (splices : highlighter.Splices earlier family spliced start final)
    (ended : final.abortedAt = none) : family.Clear final.content := by
  have found := splices_pass splices (spliced + 1)
  rw [if_pos (Nat.lt_succ_self spliced)] at found
  exact pass_clear found ended

theorem splices_measured {measure : Text → Nat} {least : Nat} (positive : 0 < least)
    (lowers : ∀ report next, highlighter.round earlier family report = .again next →
      measure next.content + least ≤ measure report.content) (start : Report) :
    ∃ spliced final, highlighter.Splices earlier family spliced start final ∧ spliced ≤ measure start.content / least := by
  induction size : measure start.content using Nat.strong_induction_on generalizing start with
  | _ size ih =>
  match step : highlighter.round earlier family start with
  | .over final => exact ⟨0, final, .stop step, Nat.zero_le _⟩
  | .again next =>
      have lower := lowers start next step
      obtain ⟨spliced, final, splices, few⟩ := ih (measure next.content) (by omega) next rfl
      refine ⟨spliced + 1, final, .again step splices, ?_⟩
      rw [Nat.le_div_iff_mul_le positive] at few ⊢
      rw [Nat.succ_mul]
      omega

theorem replacement_graveless (plain : '\x60' ∉ highlighter.wrapperClass) (asked : Nat) (raw : Text) :
    '\x60' ∉ (highlighter.rendering asked family raw).replacement := by
  rcases replacement_cases highlighter asked family raw with dropped | ⟨block, -, made⟩
  · rw [dropped]
    exact List.not_mem_nil
  · exact fragment_graveless plain made

theorem raw_graves (span : Span) : 6 ≤ (span.raw .backtick).count '\x60' := by
  have token : (Family.token .backtick).count '\x60' = 3 := by decide
  simp only [Span.raw, List.count_append, token]
  omega

theorem backtick_round_removes (plain : '\x60' ∉ highlighter.wrapperClass) {report next : Report}
    (again : highlighter.round earlier .backtick report = .again next) :
    ∃ (span : Span) (replacement : Text), report.content = span.splice (span.raw .backtick) ∧
      next.content = span.splice replacement ∧ 6 ≤ (span.raw .backtick).count '\x60' ∧ '\x60' ∉ replacement := by
  obtain ⟨span, asked, -, before, behind⟩ := round_splices again
  exact ⟨span, _, before, behind, raw_graves span, replacement_graveless plain asked _⟩

theorem backtick_round_lowers (plain : '\x60' ∉ highlighter.wrapperClass) {report next : Report}
    (again : highlighter.round earlier .backtick report = .again next) :
    next.content.count '\x60' + 6 ≤ report.content.count '\x60' := by
  obtain ⟨span, replacement, before, behind, taken, none⟩ := backtick_round_removes plain again
  rw [← List.count_eq_zero] at none
  simp only [before, behind, Span.splice, List.count_append]
  omega

theorem backtick_pass_bounded (plain : '\x60' ∉ highlighter.wrapperClass) (earlier : Nat) :
    (∀ report next, highlighter.round earlier .backtick report = .again next →
      ∃ (span : Span) (replacement : Text), report.content = span.splice (span.raw .backtick) ∧
        next.content = span.splice replacement ∧ 6 ≤ (span.raw .backtick).count '\x60' ∧ '\x60' ∉ replacement) ∧
    ∀ start, ∃ spliced final, highlighter.Splices earlier .backtick spliced start final ∧
      (∀ bound, highlighter.pass earlier .backtick bound start = if spliced < bound then some final else none) ∧
      spliced ≤ start.content.count '\x60' / 6 ∧
      (final.abortedAt = none → Family.backtick.Clear final.content) := by
  constructor
  · intro report next again
    exact backtick_round_removes plain again
  · intro start
    have lowers (report next : Report) (again : highlighter.round earlier .backtick report = .again next) :=
      backtick_round_lowers plain again
    obtain ⟨spliced, final, splices, few⟩ := splices_measured (by decide) lowers start
    exact ⟨spliced, final, splices, splices_pass splices, few, splices_clear splices⟩

theorem backtick_pass_bounded_crash :
    let highlighter : Highlighter := { engine := Engine.answering (.crash none) (· = .diff) Engine.plain }
    let start : Report := { content := "``````diff\nx\n````ts\ny\n```b".toList }
    '\x60' ∉ highlighter.wrapperClass ∧ ∃ spliced final, highlighter.Splices 0 .backtick spliced start final ∧
      (∀ bound, highlighter.pass 0 .backtick bound start = if spliced < bound then some final else none) ∧
      spliced ≤ 2 ∧ (final.abortedAt = none → Family.backtick.Clear final.content) := by
  intro highlighter start
  have plain : '\x60' ∉ highlighter.wrapperClass := by decide
  have graves : start.content.count '\x60' / 6 = 2 := by decide
  obtain ⟨spliced, final, splices, passes, few, clear⟩ := (backtick_pass_bounded plain 0).2 start
  exact ⟨plain, spliced, final, splices, passes, graves ▸ few, clear⟩

theorem raw_weight (span : Span) : 3 + Text.weight (span.body ++ Family.tilde.token) ≤ (span.raw .tilde).weight := by
  have token : Text.weight (Family.token .tilde) = 3 := by decide
  have shape : span.raw .tilde = Family.tilde.token ++ (span.language.tag ++ (span.body ++ Family.tilde.token)) := by simp [Span.raw]
  have first := Text.weight_append Family.tilde.token (span.language.tag ++ (span.body ++ Family.tilde.token))
  have second := Text.weight_append span.language.tag (span.body ++ Family.tilde.token)
  rw [shape]
  omega

theorem splice_weight (span : Span) (text : Text) :
    span.before.weight + text.weight + span.behind.weight ≤ (span.splice text).weight := by
  have first := Text.weight_append span.before text
  have whole := Text.weight_append (span.before ++ text) span.behind
  rw [Span.splice]
  omega

-- Dropping a block can make one placeholder of the text around it, but takes two tokens away.
theorem dropped_weight (span : Span) : (span.splice []).weight + 3 ≤ (span.splice (span.raw .tilde)).weight := by
  have seam := Text.weight_seam span.before span.behind
  have around := splice_weight span (span.raw .tilde)
  have taken := raw_weight span
  have token : Text.weight (Family.token .tilde) = 3 := by decide
  have last := Text.weight_append span.body Family.tilde.token
  rw [Span.splice, List.append_nil]
  omega

theorem rendered_weight (sparing : highlighter.Sparing) (bare : '~' ∉ highlighter.wrapperClass) {text html : Text} {span : Span}
    {block : Block} (located : Family.tilde.locate text = .closed span) (parsed : Block.parse .tilde (span.raw .tilde) = .ok block)
    (made : highlighter.fragment earlier block.code block.language = .ok html) :
    (span.splice html).weight + 3 ≤ (span.splice (span.raw .tilde)).weight := by
  obtain ⟨tildes, uncovered⟩ := fragment_sparing sparing bare made
  have inside := Text.weight_part (Family.parse_code_sharp located parsed).2
  have around := splice_weight span (span.raw .tilde)
  have taken := raw_weight span
  have light := Text.weight_lacking uncovered
  obtain ⟨inner, rfl⟩ := fragment_bracketed made
  have apart := Text.weight_bracketed span.before inner span.behind
  rw [Span.splice]
  omega

theorem tilde_round_lowers (sparing : highlighter.Sparing) (bare : '~' ∉ highlighter.wrapperClass) {report next : Report}
    (again : highlighter.round earlier .tilde report = .again next) : next.content.weight + 3 ≤ report.content.weight := by
  obtain ⟨span, asked, located, before, behind⟩ := round_splices again
  rw [before, behind]
  rcases replacement_cases highlighter asked .tilde (span.raw .tilde) with dropped | ⟨block, parsed, made⟩
  · rw [dropped]
    exact dropped_weight span
  · exact rendered_weight sparing bare located parsed made

theorem engine_sparing (sparing : highlighter.Sparing ∨ highlighter.Untilded ∧ (highlighter.engine = Engine.plain ∨
    ∃ library : Library, library.Faithful ∧ highlighter.engine = library.engine)) : highlighter.Sparing := by
  rcases sparing with known | ⟨untilded, plain | ⟨library, faithful, engine⟩⟩
  · exact known
  · exact plain_sparing plain untilded
  · exact library_sparing faithful engine untilded

theorem tilde_pass_bounded (sparing : highlighter.Sparing ∨ highlighter.Untilded ∧ (highlighter.engine = Engine.plain ∨
      ∃ library : Library, library.Faithful ∧ highlighter.engine = library.engine))
    (bare : '~' ∉ highlighter.wrapperClass) (earlier : Nat) :
    (∀ report next, highlighter.round earlier .tilde report = .again next → next.content.weight + 3 ≤ report.content.weight) ∧
    ∀ start, ∃ spliced final, highlighter.Splices earlier .tilde spliced start final ∧
      (∀ bound, highlighter.pass earlier .tilde bound start = if spliced < bound then some final else none) ∧
      spliced ≤ start.content.weight / 3 := by
  have lowers (report next : Report) (again : highlighter.round earlier .tilde report = .again next) :=
    tilde_round_lowers (engine_sparing sparing) bare again
  refine ⟨lowers, fun start => ?_⟩
  obtain ⟨spliced, final, splices, few⟩ := splices_measured (by decide) lowers start
  exact ⟨spliced, final, splices, splices_pass splices, few⟩

theorem tilde_pass_bounded_sample :
    let highlighter : Highlighter :=
      { engine := (Sample.registry true).library.engine, themes := ⟨"mini-dark".toList, "mini-light".toList⟩ }
    let start : Report := { content := "~~~md\n&triptilde;ts\n@a ~1~ !\n&triptilde;\n~~~".toList }
    highlighter.Untilded ∧ (∃ library : Library, library.Faithful ∧ highlighter.engine = library.engine) ∧
      '~' ∉ highlighter.wrapperClass ∧ ∃ spliced final, highlighter.Splices 0 .tilde spliced start final ∧
      (∀ bound, highlighter.pass 0 .tilde bound start = if spliced < bound then some final else none) ∧ spliced ≤ 4 := by
  intro highlighter start
  have untilded : highlighter.Untilded := by decide
  have faithful : ∃ library : Library, library.Faithful ∧ highlighter.engine = library.engine :=
    ⟨(Sample.registry true).library, Registry.library_faithful (Sample.registry_faithful true), rfl⟩
  have bare : '~' ∉ highlighter.wrapperClass := by decide
  have weight : start.content.weight / 3 = 4 := by decide
  obtain ⟨spliced, final, splices, passes, few⟩ := (tilde_pass_bounded (Or.inr ⟨untilded, Or.inr faithful⟩) bare 0).2 start
  exact ⟨untilded, faithful, bare, spliced, final, splices, passes, weight ▸ few⟩

end Highlighter
end CodeFence
