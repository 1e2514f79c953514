import CodeFence.Proofs.Document.Sweep
import CodeFence.Proofs.Engine.Plain

set_option autoImplicit false

namespace CodeFence

-- Has no tree for some languages and does for the others what the plain engine does.
structure Engine.Failing (engine : Engine) (drops : Language → Bool) : Prop where
  fails : ∀ earlier request, drops request.language → ∀ root, engine earlier request ≠ .tree root
  works : ∀ earlier request, ¬ drops request.language → engine earlier request = Engine.plain earlier request

structure Series.Part (family : Family) where
  block : Block
  after : Text
  bare : block.code.Lacks family.token

-- Texts and, between them, written blocks of one family.
structure Series (family : Family) where
  lead : Text
  parts : List (Series.Part family)

namespace Series

variable {family : Family}

def Part.source (part : Part family) : Text :=
  part.block.write family

def Part.request (highlighter : Highlighter) (part : Part family) : Request :=
  highlighter.request (Highlighter.code part.block.code) part.block.language

def Part.dropped (drops : Language → Bool) (part : Part family) : Bool :=
  drops part.block.language

def body (shown : Part family → Text) (parts : List (Part family)) : Text :=
  parts.flatMap fun part => shown part ++ part.after

def text (series : Series family) (shown : Part family → Text) : Text :=
  series.lead ++ body shown series.parts

def gapsFrom (drops : Language → Bool) (gap : Text) : List (Part family) → List Text
  | [] => [gap]
  | part :: parts =>
      if part.dropped drops then gapsFrom drops (gap ++ part.after) parts
      else gap :: gapsFrom drops part.after parts

def gaps (drops : Language → Bool) (series : Series family) : List Text :=
  gapsFrom drops series.lead series.parts

variable {highlighter : Highlighter} {drops : Language → Bool} {shown : Part family → Text}

theorem body_cons (shown : Part family → Text) (part : Part family) (parts : List (Part family)) :
    body shown (part :: parts) = shown part ++ (part.after ++ body shown parts) := by
  rw [body, List.flatMap_cons, List.append_assoc, body]

theorem gaps_front (drops : Language → Bool) (gap : Text) (parts : List (Part family)) :
    ∃ first ∈ gapsFrom drops gap parts, gap <+: first := by
  induction parts generalizing gap with
  | nil => exact ⟨gap, List.mem_singleton_self gap, List.prefix_rfl⟩
  | cons part parts ih =>
      rw [gapsFrom]
      by_cases fails : part.dropped drops
      · rw [if_pos fails]
        obtain ⟨first, held, front⟩ := ih (gap ++ part.after)
        exact ⟨first, held, (List.prefix_append gap part.after).trans front⟩
      · rw [if_neg fails]
        exact ⟨gap, List.mem_cons_self, List.prefix_rfl⟩

theorem gaps_inside (nothing : ∀ part : Part family, part.dropped drops → shown part = []) {gap joined : Text}
    {parts : List (Part family)} (held : joined ∈ gapsFrom drops gap parts) : joined <:+: gap ++ body shown parts := by
  induction parts generalizing gap with
  | nil =>
      rw [List.mem_singleton.mp held]
      exact (List.prefix_append gap _).isInfix
  | cons part parts ih =>
      rw [gapsFrom] at held
      rw [body_cons]
      by_cases fails : part.dropped drops
      · rw [if_pos fails] at held
        rw [nothing part fails, List.nil_append, ← List.append_assoc]
        exact ih held
      · rw [if_neg fails] at held
        rcases List.mem_cons.mp held with same | later
        · rw [same]
          exact (List.prefix_append gap _).isInfix
        · have behind : part.after ++ body shown parts <:+ shown part ++ (part.after ++ body shown parts) := List.suffix_append _ _
          exact (ih later).trans (behind.trans (List.suffix_append gap _)).isInfix

-- What a pass over the parts does to a report when each failure stays local.
structure Settled (highlighter : Highlighter) (drops : Language → Bool) (parts : List (Part family)) (text : Text)
    (start final : Report) : Prop where
  content : final.content = text
  blocks : final.blocks = start.blocks + parts.length
  skipped : final.skipped = start.skipped + (parts.filter (Part.dropped drops)).length
  abortedAt : final.abortedAt = start.abortedAt
  requests : final.requests = start.requests ++ parts.map (Part.request highlighter)

theorem settled_cons {part : Part family} {parts : List (Part family)} {text between : Text} {start second final : Report}
    (first : Settled highlighter drops [part] between start second) (later : Settled highlighter drops parts text second final) :
    Settled highlighter drops (part :: parts) text start final := by
  refine ⟨later.content, ?_, ?_, later.abortedAt.trans first.abortedAt, ?_⟩
  · rw [later.blocks, first.blocks, List.length_singleton, List.length_cons]
    omega
  · have split : (part :: parts).filter (Part.dropped drops) = [part].filter (Part.dropped drops) ++ parts.filter (Part.dropped drops) :=
      List.filter_append [part] parts
    rw [later.skipped, first.skipped, split, List.length_append, Nat.add_assoc]
  · rw [later.requests, first.requests, List.append_assoc]
    rfl

structure Renders (highlighter : Highlighter) (drops : Language → Bool) (shown : Part family → Text) : Prop where
  nothing : ∀ part : Part family, part.dropped drops → shown part = []
  failed : ∀ part : Part family, part.dropped drops → ∀ earlier, ∃ fault,
    highlighter.fragment earlier part.block.code part.block.language = .error fault
  made : ∀ part : Part family, ¬ part.dropped drops → ∀ earlier,
    highlighter.fragment earlier part.block.code part.block.language = .ok (shown part)

theorem round_settles {earlier : Nat} {start : Report} {part : Part family} {done gap rest : Text}
    (renders : Renders highlighter drops shown) (content : start.content = done ++ (gap ++ (part.source ++ rest)))
    (closed : family.Sealed done) (clear : family.Clear gap) :
    ∃ second, highlighter.round earlier family start = .again second ∧
      Settled highlighter drops [part] (done ++ (gap ++ (shown part ++ rest))) start second := by
  obtain ⟨span, splice, again⟩ := Highlighter.round_block part.bare content closed clear
  refine ⟨_, again, ?_⟩
  by_cases fails : part.dropped drops
  · obtain ⟨fault, failed⟩ := renders.failed part fails (earlier + start.requests.length)
    rw [failed]
    refine ⟨?_, Report.splice_blocks _ _ _, ?_, Report.splice_aborted _ _ _, Report.splice_requests _ _ _⟩
    · rw [Report.splice_content, splice, renders.nothing part fails]
      rfl
    · rw [List.filter_cons_of_pos fails]
      exact Report.splice_dropped rfl _ _
  · rw [renders.made part fails]
    refine ⟨?_, Report.splice_blocks _ _ _, ?_, Report.splice_aborted _ _ _, Report.splice_requests _ _ _⟩
    · rw [Report.splice_content, splice]
      rfl
    · rw [List.filter_cons_of_neg fails]
      exact Report.splice_made rfl _ _

theorem pass_settles {earlier bound : Nat} {parts : List (Part family)} {start : Report} {done gap : Text}
    (renders : Renders highlighter drops shown) (quiet : ∀ part : Part family, family.Clear (shown part))
    (content : start.content = done ++ (gap ++ body Part.source parts)) (closed : family.Sealed done)
    (clear : ∀ joined ∈ gapsFrom drops gap parts, family.Clear joined) (enough : parts.length < bound) :
    ∃ final, highlighter.pass earlier family bound start = some final ∧
      Settled highlighter drops parts (done ++ (gap ++ body shown parts)) start final := by
  induction parts generalizing bound done gap start with
  | nil =>
      obtain ⟨bound, rfl⟩ := Nat.exists_eq_add_of_le' enough
      have none : family.Clear start.content := by
        rw [content, body, List.flatMap_nil, List.append_nil]
        exact Family.sealed_clear closed (clear gap (List.mem_singleton_self gap))
      exact ⟨start, Highlighter.pass_over (Highlighter.round_clear none) bound, content, rfl, rfl, rfl, (List.append_nil _).symm⟩
  | cons part parts ih =>
      obtain ⟨bound, rfl⟩ := Nat.exists_eq_add_of_le' (Nat.zero_lt_of_lt enough)
      have fewer : parts.length < bound := Nat.lt_of_succ_lt_succ enough
      have here : family.Clear gap := by
        obtain ⟨first, held, front⟩ := gaps_front drops gap (part :: parts)
        exact Family.clear_part (clear first held) front.isInfix
      rw [body_cons] at content ⊢
      obtain ⟨second, again, first⟩ := @round_settles family highlighter drops shown earlier start part done gap _ renders content closed here
      rw [gapsFrom] at clear
      by_cases fails : part.dropped drops
      · -- Nothing stands in the place of the block, so its gap goes on with the text behind it.
        rw [if_pos fails] at clear
        have joined : second.content = done ++ ((gap ++ part.after) ++ body Part.source parts) := by
          rw [first.content, renders.nothing part fails]
          simp
        obtain ⟨final, found, later⟩ := ih joined closed clear fewer
        refine ⟨final, (Highlighter.pass_again again bound).trans found, ?_⟩
        rw [renders.nothing part fails]
        simpa using settled_cons first later
      · rw [if_neg fails] at clear
        obtain ⟨inner, bracketed⟩ := Highlighter.fragment_bracketed (renders.made part fails 0)
        have sealed : family.Sealed (done ++ gap ++ shown part) := by
          rw [bracketed]
          exact Family.sealed_bracketed (Family.sealed_clear closed here) (bracketed ▸ quiet part)
        have shifted : second.content = (done ++ gap ++ shown part) ++ (part.after ++ body Part.source parts) := by
          rw [first.content]
          simp
        obtain ⟨final, found, later⟩ := ih shifted sealed (fun joined held => clear joined (List.mem_cons_of_mem gap held)) fewer
        refine ⟨final, (Highlighter.pass_again again bound).trans found, ?_⟩
        simpa using settled_cons first later

theorem failing_renders (failing : highlighter.engine.Failing drops) : Renders highlighter drops fun part : Part family =>
    if part.dropped drops then []
    else highlighter.wrap (highlighter.markup (Highlighter.code part.block.code) part.block.language (Directive.parse part.block.code).lines) where
  nothing part fails := if_pos fails
  failed part fails earlier := by
    cases made : highlighter.fragment earlier part.block.code part.block.language with
    | error fault => exact ⟨fault, rfl⟩
    | ok html =>
        obtain ⟨root, answered, -⟩ := Highlighter.fragment_ok_iff.mp made
        exact absurd answered (failing.fails earlier (part.request highlighter) fails root)
  made part works earlier := by
    rw [if_neg works]
    exact Highlighter.fragment_ok_iff.mpr ⟨_, failing.works earlier (part.request highlighter) works, rfl⟩

theorem renders_quiet (bare : '\x60' ∉ highlighter.wrapperClass) {shown : Part .backtick → Text}
    (renders : Renders highlighter drops shown) (part : Part .backtick) : Family.backtick.Clear (shown part) := by
  by_cases fails : part.dropped drops
  · rw [renders.nothing part fails]
    exact Family.clear_nil _
  · have absent := Highlighter.fragment_graveless bare (renders.made part fails 0)
    exact Family.clear_of_token (Text.lacks_absent List.mem_cons_self absent)

theorem failures_local_iff (bare : '\x60' ∉ highlighter.wrapperClass) (failing : highlighter.engine.Failing drops)
    (series : Series .backtick) :
    ∃ shown : Part .backtick → Text,
      (∀ part : Part .backtick, (part.dropped drops → shown part = []) ∧ (¬ part.dropped drops →
        ∀ earlier, highlighter.fragment earlier part.block.code part.block.language = .ok (shown part))) ∧
      ∀ earlier logged id, (∃ bound report, ({ highlighter, passes := [.backtick], logged } : Preprocessor).run bound earlier
            (series.text Part.source) id = some report ∧
          report.content = series.text shown ∧ report.blocks = series.parts.length ∧
          report.skipped = (series.parts.filter (Part.dropped drops)).length ∧ report.abortedAt = none ∧
          report.requests = series.parts.map (Part.request highlighter)) ↔
        ∀ gap ∈ series.gaps drops, Family.backtick.Clear gap := by
  have renders := @failing_renders .backtick highlighter drops failing
  refine ⟨_, fun part => ⟨renders.nothing part, renders.made part⟩, fun earlier logged id => ⟨?_, fun clear => ?_⟩⟩
  · rintro ⟨bound, report, found, content, -, -, running, -⟩ gap held
    have ended := Highlighter.run_clear rfl found running
    rw [content] at ended
    exact Family.clear_part ended (gaps_inside renders.nothing held)
  · let preprocessor : Preprocessor := { highlighter, passes := [.backtick], logged }
    have empty : Family.backtick.Sealed [] := ⟨Family.clear_nil _, fun c final => by cases final⟩
    obtain ⟨last, found, settled⟩ := @pass_settles _ _ _ _ earlier (series.parts.length + 1) series.parts
      (preprocessor.start (series.text Part.source) id) [] series.lead renders (renders_quiet bare renders) rfl empty clear (Nat.lt_succ_self _)
    have finished := @Highlighter.run_finished _ _ preprocessor rfl _ _ _ _ found settled.abortedAt
    refine ⟨series.parts.length + 1, last.finish, finished, settled.content, ?_, ?_, settled.abortedAt, ?_⟩
    · exact settled.blocks.trans (Nat.zero_add _)
    · exact settled.skipped.trans (Nat.zero_add _)
    · rw [Report.finish_requests, settled.requests]
      rfl

theorem answering_failing {answer : Answer} (none : ∀ root, answer ≠ .tree root) (on : Language → Bool) :
    (Engine.answering answer on Engine.plain).Failing on where
  fails earlier request member root := by
    rw [Engine.answering, if_pos member]
    exact none root
  works earlier request other := by rw [Engine.answering, if_neg other]

theorem failures_local_pair :
    let highlighter : Highlighter := { engine := Engine.answering (.crash none) (· = .diff) Engine.plain }
    '\x60' ∉ highlighter.wrapperClass ∧ highlighter.engine.Failing (· = .diff) ∧
      ∃ html bound report, highlighter.fragment 0 ['y'] .sh = .ok html ∧
        ({ highlighter, passes := [.backtick] } : Preprocessor).run bound 0 "a\n```diff\nx\n```b```sh\ny\n```c".toList "a.md".toList = some report ∧
        report.content = "a\nb".toList ++ html ++ ['c'] ∧ report.blocks = 2 ∧ report.skipped = 1 ∧ report.abortedAt = none ∧
        report.requests.map Request.language = [.diff, .sh] := by
  intro highlighter
  have bare : '\x60' ∉ highlighter.wrapperClass := by decide
  have failing : highlighter.engine.Failing (· = .diff) :=
    @answering_failing (.crash none) (fun root same => by cases same) (· = .diff)
  let first : Part .backtick := ⟨⟨.diff, ['x']⟩, ['b'], by decide⟩
  let second : Part .backtick := ⟨⟨.sh, ['y']⟩, ['c'], by decide⟩
  let series : Series .backtick := ⟨"a\n".toList, [first, second]⟩
  obtain ⟨shown, parts, runs⟩ := failures_local_iff bare failing series
  obtain ⟨bound, report, found, content, blocks, skipped, running, requests⟩ := (runs 0 false "a.md".toList).mpr (by decide)
  have written : series.text Part.source = "a\n```diff\nx\n```b```sh\ny\n```c".toList := by decide
  have nothing : shown first = [] := (parts first).1 (by decide)
  have joined : series.text shown = "a\nb".toList ++ shown second ++ ['c'] := by
    simp [series, Series.text, body, nothing, first, second]
  refine ⟨bare, failing, shown second, bound, report, (parts second).2 (by decide) 0, written ▸ found, content.trans joined,
    blocks, skipped, running, ?_⟩
  rw [requests]
  rfl

-- The texts around a dropped block make an opener together, and a block that nobody wrote is shown.
theorem failure_opens_block :
    let preprocessor : Preprocessor :=
      { highlighter := { engine := Engine.answering (.failure (.highlightEngine "down".toList)) (· = .diff) Engine.plain }
        passes := [.backtick] }
    let series : Series .backtick :=
      ⟨"``".toList, [⟨⟨.diff, "+a".toList⟩, "`ts\nkeep\n".toList, by decide⟩, ⟨⟨.sh, "echo".toList⟩, [], by decide⟩]⟩
    preprocessor.highlighter.engine.Failing (· = .diff) ∧ series.lead.Lacks Family.backtick.token ∧
      (∀ part ∈ series.parts, part.after.Lacks Family.backtick.token) ∧
      series.text Part.source = "`````diff\n+a\n````ts\nkeep\n```sh\necho\n```".toList ∧
      (∀ shown : Part .backtick → Text, (∀ part : Part .backtick, part.dropped (· = .diff) → shown part = []) →
        ∀ bound earlier id report, preprocessor.run bound earlier (series.text Part.source) id = some report →
          report.abortedAt = none → report.content ≠ series.text shown) ∧
      (preprocessor.run 4 0 (series.text Part.source) "a.md".toList).map (fun report => report.requests.map Request.language) =
        some [.diff, .ts] := by
  intro preprocessor series
  have failing : preprocessor.highlighter.engine.Failing (· = .diff) :=
    @answering_failing (.failure (.highlightEngine "down".toList)) (fun root same => by cases same) (· = .diff)
  have joined : "```ts\nkeep\n".toList ∈ series.gaps (· = .diff) := by decide
  refine ⟨failing, by decide, by decide, by decide, ?_, by decide +kernel⟩
  intro shown nothing bound earlier id report found running content
  have clear := Highlighter.run_clear rfl found running
  rw [content] at clear
  exact Family.clear_part clear (gaps_inside nothing joined) .ts ⟨[], "\nkeep\n".toList, rfl⟩

end Series
end CodeFence
