import CodeFence.Proofs.Document.Rounds
import CodeFence.Proofs.Document.Sweep

set_option autoImplicit false

namespace CodeFence.Highlighter

def written (highlighter : Highlighter) (family : Family) (raw : Text) : Text :=
  (highlighter.rendering 0 family raw).replacement

inductive Stops (highlighter : Highlighter) (family : Family) : Text → Prop
  | still {text : Text} : (∀ span, family.locate text ≠ .closed span) → Stops highlighter family text
  | again {text : Text} {span : Span} : family.locate text = .closed span →
      Stops highlighter family (span.splice (highlighter.written family (span.raw family))) → Stops highlighter family text

variable {highlighter : Highlighter} {family : Family}

theorem stops_clear {text : Text} (clear : family.Clear text) : highlighter.Stops family text := by
  refine .still fun span located => ?_
  rw [Family.locate_clear_iff.mpr clear] at located
  cases located

theorem rendering_written {earlier : Nat} (steady : highlighter.engine.Steady) (raw : Text) :
    (highlighter.rendering earlier family raw).replacement = highlighter.written family raw := by
  rw [written, rendering_steady steady earlier 0]

theorem written_made {raw html : Text} {block : Block} (parsed : Block.parse family raw = .ok block)
    (made : highlighter.fragment 0 block.code block.language = .ok html) : highlighter.written family raw = html := by
  rw [written, rendering_parsed parsed, Rendering.replacement, made]
  rfl

theorem written_nothing {raw : Text} {fault : Fault} (parsed : Block.parse family raw = .error fault) :
    highlighter.written family raw = [] := by
  rw [written, rendering, parsed]
  rfl

theorem stops_iff_ends {earlier : Nat} (steady : highlighter.engine.Steady) {report : Report} :
    highlighter.Stops family report.content ↔ ∃ final, highlighter.Ends earlier family report final := by
  constructor
  · intro stops
    generalize shape : report.content = text at stops
    induction stops generalizing report with
    | still none =>
        cases located : family.locate report.content with
        | clear =>
            exact ⟨report, (ends_over (round_clear (Family.locate_clear_iff.mp located))).mpr rfl⟩
        | unclosed opening => exact ⟨_, (ends_over (round_unclosed located)).mpr rfl⟩
        | closed span => exact absurd (shape ▸ located) (none span)
    | @again text span located _ ih =>
        have again := @round_closed highlighter earlier family report span (shape ▸ located)
        have next := (Report.splice_content report span (highlighter.rendering (earlier + report.requests.length) family
          (span.raw family))).trans (congrArg span.splice (rendering_written steady _))
        obtain ⟨final, ended⟩ := ih next
        exact ⟨final, (ends_again again).mpr ended⟩
  · rintro ⟨final, bound, found⟩
    induction bound generalizing report with
    | zero => cases found
    | succ bound ih =>
        cases located : family.locate report.content with
        | clear => exact stops_clear (Family.locate_clear_iff.mp located)
        | unclosed opening =>
            refine .still fun span other => ?_
            rw [located] at other
            cases other
        | closed span =>
            rw [pass_again (round_closed located)] at found
            have later := ih found
            rw [Report.splice_content, rendering_written steady] at later
            exact .again located later

section Everywhere

variable {bound : Nat}
  (shorter : ∀ before raw behind, family.Clear before → behind.length < bound →
    highlighter.Stops family (before ++ highlighter.written family raw ++ behind))

include shorter

theorem stops_behind {done rest : Text} (clear : family.Clear done) (enough : rest.length ≤ bound) :
    highlighter.Stops family (done ++ rest) := by
  cases located : family.locate (done ++ rest) with
  | clear => exact stops_clear (Family.locate_clear_iff.mp located)
  | unclosed opening =>
      refine .still fun span other => ?_
      rw [located] at other
      cases other
  | closed span =>
      have less := Family.locate_behind_shorter clear located
      exact .again located (shorter _ _ _ (Family.locate_before_clear located) (Nat.lt_of_lt_of_le less enough))

theorem stops_around_open {front inner rest : Text} (clear : family.Clear front)
    (none : ∀ span, family.locate inner ≠ .closed span) (enough : rest.length ≤ bound) :
    highlighter.Stops family (front ++ '<' :: (inner ++ '>' :: rest)) := by
  have outside := family.bracket_outside
  cases located : family.locate inner with
  | closed span => exact absurd located (none span)
  | clear =>
      have bare : family.Clear (front ++ '<' :: (inner ++ ['>'])) := by
        rw [Family.clear_apart outside.1, Family.clear_apart outside.2]
        exact ⟨clear, Family.locate_clear_iff.mp located, family.clear_nil⟩
      simpa using stops_behind shorter bare enough
  | unclosed opening =>
      have whole := Family.locate_clear_apart outside.1 clear (inner ++ '>' :: rest)
      rw [Family.locate_unclosed_apart outside.2 located] at whole
      cases cut : Text.cut? family.token rest with
      | none =>
          refine .still fun span other => ?_
          rw [whole, cut] at other
          cases other
      | some parts =>
          -- The block runs on behind the bracket and takes something off the rest.
          rw [cut] at whole
          refine .again whole (shorter _ _ _ (Family.locate_before_clear whole) ?_)
          have token := List.length_pos_iff.mpr family.token_marked
          have lengths := congrArg List.length (Text.cut_parts cut)
          rw [List.length_append, List.length_append] at lengths
          change parts.2.length < bound
          omega

theorem stops_around {front inner rest : Text} (clear : family.Clear front)
    (stops : highlighter.Stops family ('<' :: inner ++ ['>'])) (enough : rest.length ≤ bound) :
    highlighter.Stops family (front ++ '<' :: (inner ++ '>' :: rest)) := by
  have outside := family.bracket_outside
  generalize shape : '<' :: inner ++ ['>'] = text at stops
  induction stops generalizing inner with
  | @still text none =>
      refine stops_around_open shorter clear (fun span located => ?_) enough
      have alone := Family.locate_between outside.1 outside.2 family.clear_nil located []
      exact none _ (shape ▸ alone)
  | @again text span located later ih =>
      by_cases closed : ∃ found, family.locate inner = .closed found
      · obtain ⟨found, inside⟩ := closed
        have alone := Family.locate_between outside.1 outside.2 family.clear_nil inside []
        rw [List.nil_append, ← List.cons_append, shape, located] at alone
        cases alone
        have spliced := @ih (found.splice (highlighter.written family (found.raw family))) (by simp [Span.splice, Span.raw])
        refine .again (Family.locate_between outside.1 outside.2 clear inside rest) ?_
        simpa [Span.splice, Span.raw] using spliced
      · exact stops_around_open shorter clear (fun found inside => closed ⟨found, inside⟩) enough

end Everywhere

theorem stops_after (fragments : ∀ raw language html, highlighter.fragment 0 raw language = .ok html →
      highlighter.Stops family html) {before : Text} (raw : Text) (clear : family.Clear before) (behind : Text) :
    highlighter.Stops family (before ++ highlighter.written family raw ++ behind) := by
  induction size : behind.length using Nat.strong_induction_on generalizing before raw behind with
  | _ size ih =>
  have shorter (front raw rest : Text) (bare : family.Clear front) (less : rest.length < behind.length) :=
    ih rest.length (size ▸ less) raw bare rest rfl
  rcases replacement_cases highlighter 0 family raw with nothing | ⟨block, -, fragment⟩
  · rw [written, nothing, List.append_nil]
    exact stops_behind shorter clear (Nat.le_refl _)
  · obtain ⟨inner, bracketed⟩ := fragment_bracketed fragment
    have stops := fragments _ _ _ fragment
    rw [bracketed] at stops
    rw [written, bracketed]
    simpa using stops_around shorter clear stops (Nat.le_refl _)

theorem stops_everywhere (fragments : ∀ raw language html, highlighter.fragment 0 raw language = .ok html →
    highlighter.Stops family html) (text : Text) : highlighter.Stops family text := by
  have stops := @stops_behind highlighter family text.length
    (fun before raw behind clear _ => stops_after fragments raw clear behind) [] text family.clear_nil (Nat.le_refl _)
  exact stops

end CodeFence.Highlighter
