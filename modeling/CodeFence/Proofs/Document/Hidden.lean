import CodeFence.Config
import CodeFence.Proofs.Document.Page

set_option autoImplicit false

namespace CodeFence

open Text (Lacks)

/-- Run on its own with what is the default, the block is shown once and nothing else happens. -/
def Block.Embeds (family : Family) (block : Block) : Prop :=
  ∃ html bound, (({} : Config).highlighter Engine.plain).fragment 0 block.code block.language = .ok html ∧ ∀ id, ∃ report,
    (({} : Config).preprocessor Engine.plain).run bound 0 (block.write family) id = some report ∧
    report.content = html ∧ report.blocks = 1 ∧ report.skipped = 0 ∧ report.abortedAt = none ∧
    report.requests = [(({} : Config).highlighter Engine.plain).request (Highlighter.code block.code) block.language]

namespace Highlighter

variable {highlighter : Highlighter} {earlier : Nat} {family : Family}

-- A document with an opener in it counts for more than it did.
theorem ends_reads {report final : Report} (loud : ¬ family.Clear report.content)
    (ended : highlighter.Ends earlier family report final) : report.blocks < final.blocks := by
  cases located : family.locate report.content with
  | clear => exact absurd (Family.locate_clear_iff.mp located) loud
  | unclosed opening =>
      rw [(ends_over (round_unclosed located)).mp ended]
      exact Nat.lt_succ_self report.blocks
  | closed span =>
      obtain ⟨bound, found⟩ := (ends_again (round_closed located)).mp ended
      have later := (blocks_invariant highlighter earlier _).pass found (Nat.le_refl _)
      rw [Report.splice_blocks] at later
      exact later

end Highlighter

section Alone

variable {highlighter : Highlighter} {family : Family} {block : Block} {html : Text}

theorem finishes_alone (plain : '\x60' ∉ highlighter.wrapperClass) (bare : ∀ other : Family, block.code.Lacks other.token)
    (made : ∀ earlier, highlighter.fragment earlier block.code block.language = .ok html) :
    ∃ second : Report, second.content = html ∧ second.blocks = 1 ∧ second.skipped = 0 ∧ second.abortedAt = none ∧
      second.requests = [highlighter.request (Highlighter.code block.code) block.language] ∧
      ∀ report, highlighter.Finishes 0 [.backtick, .tilde] { content := block.write family } report ↔
        highlighter.Finishes 0 [.tilde] second report := by
  obtain ⟨second, again, content, blocks, skipped, abortedAt, requests⟩ := @Page.round_alone highlighter family block html bare made 0
  refine ⟨second, content, blocks, skipped, abortedAt, requests, fun report => ?_⟩
  have running : ¬ second.abortedAt.isSome := by
    rw [abortedAt]
    exact Bool.false_ne_true
  rw [Highlighter.finishes_cons]
  cases family with
  | backtick =>
      have grave : html.Lacks Family.backtick.token :=
        Text.lacks_absent List.mem_cons_self (Highlighter.fragment_graveless plain (made 0))
      have ended := @Highlighter.round_clear highlighter 0 .backtick second (content ▸ Family.clear_of_token grave)
      simp only [Highlighter.ends_again again, Highlighter.ends_over ended, exists_eq_left, if_neg running]
  | tilde =>
      have inert := Page.write_inert (show Family.tilde ≠ .backtick by decide) (bare .backtick)
      have ended := @Highlighter.round_clear highlighter 0 .backtick { content := block.write .tilde }
        (Family.clear_of_token inert.1)
      simp only [Highlighter.ends_over ended, exists_eq_left, Option.isSome_none, Bool.false_eq_true, if_false,
        Highlighter.finishes_cons, Highlighter.ends_again again]

end Alone

theorem embeds_clear {family : Family} {block : Block} {html : Text} (bare : ∀ other : Family, block.code.Lacks other.token)
    (made : ∀ earlier, (({} : Config).highlighter Engine.plain).fragment earlier block.code block.language = .ok html) :
    block.Embeds family ↔ Family.tilde.Clear html := by
  have plain : '\x60' ∉ (({} : Config).highlighter Engine.plain).wrapperClass := by decide
  obtain ⟨second, content, blocks, skipped, abortedAt, requests, alone⟩ := @finishes_alone _ family block html plain bare made
  constructor
  · rintro ⟨other, bound, -, embeds⟩
    obtain ⟨report, found, -, once, -⟩ := embeds []
    obtain ⟨final, ended, last⟩ := Highlighter.finishes_cons.mp ((alone report).mp ⟨bound, found⟩)
    have counted : final.blocks = 1 := by
      by_cases aborted : final.abortedAt.isSome
      · rw [if_pos aborted] at last
        exact last ▸ once
      · rw [if_neg aborted, Highlighter.finishes_nil] at last
        rw [last] at once
        exact once
    by_contra loud
    have more := Highlighter.ends_reads (content ▸ loud) ended
    omega
  · intro clear
    have ended := @Highlighter.round_clear (({} : Config).highlighter Engine.plain) 0 .tilde second (content ▸ clear)
    have last : (({} : Config).highlighter Engine.plain).Finishes 0 [.tilde] second second.finish := by
      rw [Highlighter.finishes_cons]
      refine ⟨second, (Highlighter.ends_over ended).mpr rfl, ?_⟩
      rw [abortedAt]
      exact Highlighter.finishes_nil.mpr rfl
    obtain ⟨bound, found⟩ := (alone second.finish).mpr last
    exact ⟨html, bound, made 0, fun _ => ⟨second.finish, found, content, blocks, skipped, abortedAt,
      (Report.finish_requests second).trans requests⟩⟩

theorem hidden_clear {highlighter : Highlighter} {earlier : Nat} {code html : Text} {language : Language}
    (plain : highlighter.engine = Engine.plain) (unmarked : ∀ tag, highlighter.Unmarked (Family.tilde.opener tag))
    (uncovered : ∀ row ∈ Placeholder.table, code.Lacks row.1)
    (made : highlighter.fragment earlier (Placeholder.hide code) language = .ok html) :
    Family.tilde.Clear html ↔ Family.tilde.Clear code := by
  refine forall_congr' fun tag => ?_
  have fence := Family.tilde.opener_fence_mark tag
  have asked := Highlighter.code_hidden uncovered
  have signs : Text.Visible (Family.tilde.opener tag) ∧ '\t' ∉ Family.tilde.opener tag ∧
      ∀ c ∈ Family.tilde.opener tag, c = '~' ∨ c.isLower = true := by
    cases tag <;> decide
  constructor
  · intro lacks
    have stood := Highlighter.plain_stands plain fence signs.2.2 made lacks
    rw [asked, Text.trim_lacks_iff signs.1] at stood
    exact Directive.expandTabs_keeps signs.2.1 stood
  · intro lacks
    refine Highlighter.plain_lacks plain fence (unmarked tag) ?_ made
    rw [asked, Text.trim_lacks_iff signs.1]
    exact Directive.expandTabs_lacks (Text.divider_breaks fence Highlighter.spaces_divide) lacks

theorem hidden_embeds_iff {code : Text} (uncovered : ∀ row ∈ Placeholder.table, code.Lacks row.1) (language : Language)
    (family : Family) : Block.Embeds family ⟨language, Placeholder.hide code⟩ ↔ Family.tilde.Clear code := by
  obtain ⟨html, made⟩ := @Highlighter.plain_made (({} : Config).highlighter Engine.plain) rfl (Placeholder.hide code) language
  rw [@embeds_clear family ⟨language, Placeholder.hide code⟩ html (Placeholder.hidden_bare code) made]
  exact hidden_clear rfl default_unmarked uncovered (made 0)

theorem hidden_graves_embed : Block.Embeds .tilde ⟨.md, Placeholder.hide "```ts\n/// a\n```\n~~~ b".toList⟩ :=
  (hidden_embeds_iff (by decide) .md .tilde).mpr (by decide)

theorem hidden_tildes_reread : (∀ row ∈ Placeholder.table, Text.Lacks "~~~ts\nlet a = 1;\n~~~".toList row.1) ∧
    ¬ Block.Embeds .backtick ⟨.md, Placeholder.hide "~~~ts\nlet a = 1;\n~~~".toList⟩ := by
  have uncovered : ∀ row ∈ Placeholder.table, Text.Lacks "~~~ts\nlet a = 1;\n~~~".toList row.1 := by decide
  refine ⟨uncovered, fun embeds => ?_⟩
  obtain ⟨html, made⟩ := @Highlighter.plain_made (({} : Config).highlighter Engine.plain) rfl
    (Placeholder.hide "~~~ts\nlet a = 1;\n~~~".toList) .md
  have bare := Placeholder.hidden_bare "~~~ts\nlet a = 1;\n~~~".toList
  have clear := (@embeds_clear .backtick ⟨.md, Placeholder.hide "~~~ts\nlet a = 1;\n~~~".toList⟩ html bare made).mp embeds
  have code := (hidden_clear rfl default_unmarked uncovered (made 0)).mp clear
  exact absurd code (by decide)

end CodeFence
