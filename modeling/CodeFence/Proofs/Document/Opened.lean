import CodeFence.Proofs.Document.Planting
import CodeFence.Proofs.Markup.Extended

set_option autoImplicit false

namespace CodeFence

open Text (Lacks)

namespace Family

theorem entire_spliced {text : Text} {span : Span} (located : tilde.locate text = .closed span) (entire : text.Entire) :
    span.before.Entire ∧ span.behind.Entire := by
  have parts := locate_parts located
  rw [Span.splice, Span.raw] at parts
  constructor
  · rw [parts, token] at entire
    simp only [List.append_assoc] at entire
    exact Text.entire_before entire
  · exact Text.entire_behind entire (parts ▸ List.suffix_append _ span.behind)

theorem entire_opened {text : Text} {opening : Opening} (located : tilde.locate text = .unclosed opening) (entire : text.Entire) :
    opening.behind.Entire :=
  Text.entire_behind entire (findOpening_parts (locate_unclosed_iff.mp located).1 ▸ List.suffix_append _ opening.behind)

end Family

namespace Highlighter

variable {highlighter : Highlighter}

theorem fragment_stopped (plain : highlighter.engine = Engine.plain) (unstyled : highlighter.Unstyled Family.tilde.token)
    {text : Text} (stopped : Family.tilde.Stopped text) (lacks : text.Lacks Family.tilde.token)
    (uncovered : text.Lacks Placeholder.tildeFence) (language : Language) : ∃ front behind : Text,
      (∀ earlier, highlighter.fragment earlier (text ++ Family.tilde.token) language = .ok ("<div class=".toList ++
        '"' :: (highlighter.wrapperClass.escapeMarkup ++ '"' :: (front ++ Family.tilde.token ++ behind)))) ∧
      Family.tilde.Stopped front ∧ front.Lacks Family.tilde.token ∧ front.Lacks Placeholder.tildeFence := by
  have asked := code_append .tilde (Family.stopped_firm stopped)
  have bare := code_lacks Family.tilde.token_fence_mark (by decide) lacks uncovered
  have ends : Family.tilde.Stopped (code text) := by
    obtain ⟨init, c, shape, seen⟩ := code_firm (Family.stopped_firm stopped)
    refine ⟨init, c, shape, seen, fun held => ?_⟩
    -- Four tildes in a row would stand in the code already.
    have four : Lacks (text ++ Family.tilde.token) "~~~~".toList := by
      obtain ⟨front, d, rfl, -, outside⟩ := stopped
      have apart : d ∉ "~~~~".toList := by simpa [Family.token] using outside
      rw [List.append_assoc, List.singleton_append, Text.lacks_apart apart]
      exact ⟨Text.lacks_longer (Text.lacks_part lacks (List.prefix_append front [d]).isInfix) (by decide), by decide⟩
    have hidden : Lacks (text ++ Family.tilde.token) Placeholder.tildeFence := by
      have outside : '~' ∉ Placeholder.tildeFence := by decide
      exact (Text.lacks_apart outside).mpr ⟨uncovered, by decide⟩
    have none := code_lacks (by decide) (by decide) four hidden
    have same : c = '~' := by simpa [Family.token] using held
    rw [asked, shape, same] at none
    exact none ⟨init, [], by simp [Family.token]⟩
  obtain ⟨front, behind, shape, stops, clear⟩ := markup_extended unstyled ends bare language
    (Directive.parse (text ++ Family.tilde.token)).lines
  have made (earlier : Nat) : highlighter.fragment earlier (text ++ Family.tilde.token) language = .ok ("<div class=".toList ++
      '"' :: (highlighter.wrapperClass.escapeMarkup ++ '"' :: ('>' :: front ++ Family.tilde.token ++ (behind ++ "</div>".toList)))) := by
    rw [plain_fragment plain, asked, shape, wrap_quoted]
    simp only [List.append_assoc, List.cons_append]
  refine ⟨'>' :: front, behind ++ "</div>".toList, made, Family.stopped_behind ['>'] stops, ?_, ?_⟩
  · exact (@Text.lacks_apart _ [] front '>' (by decide)).mpr ⟨by decide, clear⟩
  · have whole := Text.entire_uncovered (plain_entire plain (made 0))
    have quote : '"' ∉ Placeholder.tildeFence := by decide
    have behindWrapper := ((Text.lacks_apart quote).mp ((Text.lacks_apart quote).mp whole).2).2
    rw [List.append_assoc] at behindWrapper
    exact Text.lacks_part behindWrapper (List.prefix_append ('>' :: front) _).isInfix

theorem opened_written (plain : highlighter.engine = Engine.plain) (unstyled : highlighter.Unstyled Family.tilde.token)
    {opened line rest text : Text} {opening : Opening} (located : Family.tilde.locate opened = .unclosed opening)
    (split : opening.behind = line ++ '\n' :: rest) (fresh : '\n' ∉ line)
    (named : (Language.ofTag? (opening.language.tag ++ line).trim).isSome) (entire : opened.Entire)
    (stopped : Family.tilde.Stopped text) (lacks : text.Lacks Family.tilde.token) (uncovered : text.Lacks Placeholder.tildeFence) :
    ∃ first last : Text, highlighter.written .tilde (Family.tilde.opener opening.language ++ (opening.behind ++ '"' :: text) ++
        Family.tilde.token) = "<div class=".toList ++
          '"' :: (highlighter.wrapperClass.escapeMarkup ++ '"' :: (first ++ Family.tilde.token ++ last)) ∧
      Family.tilde.Stopped first ∧ first.Lacks Family.tilde.token ∧ first.Lacks Placeholder.tildeFence := by
  obtain ⟨read, tag⟩ := Option.isSome_iff_exists.mp named
  have lone := (Family.locate_unclosed_iff.mp located).2
  have after : rest <:+ opening.behind := split ▸ (List.suffix_cons '\n' rest).trans (List.suffix_append line _)
  have token : '"' ∉ Family.tilde.token := by decide
  have placeholder : '"' ∉ Placeholder.tildeFence := by decide
  have ends : Family.tilde.Stopped (rest ++ '"' :: text) := by
    rw [← List.singleton_append, ← List.append_assoc]
    exact Family.stopped_behind (rest ++ ['"']) stopped
  have bare : Lacks (rest ++ '"' :: text) Family.tilde.token :=
    (Text.lacks_apart token).mpr ⟨Text.lacks_part lone after.isInfix, lacks⟩
  have hidden : Lacks (rest ++ '"' :: text) Placeholder.tildeFence := by
    have held := Text.entire_uncovered (Text.entire_behind (Family.entire_opened located entire) after)
    exact (Text.lacks_apart placeholder).mpr ⟨held, uncovered⟩
  have parsed := @Block.parse_stopped .tilde opening.language read line (rest ++ '"' :: text) fresh tag ends
  obtain ⟨first, last, made, facts⟩ := fragment_stopped plain unstyled ends bare hidden read
  have whole : opening.behind ++ '"' :: text = line ++ '\n' :: (rest ++ '"' :: text) := by
    rw [split, List.append_assoc, List.cons_append]
  rw [whole]
  exact ⟨first, last, written_made parsed (made 0), facts⟩

-- The block that an opener of the wrapper class begins goes up to the first token behind the wrapper class.
theorem locate_opened {front opened text : Text} {opening : Opening} (clear : Family.tilde.Clear front)
    (located : Family.tilde.locate opened = .unclosed opening) (stopped : Family.tilde.Stopped text)
    (lacks : text.Lacks Family.tilde.token) (behind : Text) :
    Family.tilde.locate (front ++ '"' :: (opened ++ '"' :: (text ++ Family.tilde.token ++ behind))) =
      .closed ⟨front ++ ['"'] ++ opening.before, opening.language, opening.behind ++ '"' :: text, behind⟩ := by
  have outside := Family.tilde.quote_outside
  have unclosed := Family.locate_unclosed_apart outside located (text ++ Family.tilde.token ++ behind)
  rw [Family.cut_stopped stopped lacks behind] at unclosed
  rw [Family.locate_clear_apart outside clear, unclosed]
  rfl

theorem opened_forever (plain : highlighter.engine = Engine.plain) (unstyled : highlighter.Unstyled Family.tilde.token)
    (wrapper : Family.tilde.Opens highlighter.wrapperClass.escapeMarkup) {front opened text behind : Text}
    (clear : Family.tilde.Clear front) (opens : Family.tilde.Opens opened) (entire : opened.Entire)
    (stopped : Family.tilde.Stopped text) (lacks : text.Lacks Family.tilde.token) (uncovered : text.Lacks Placeholder.tildeFence) :
    ¬ highlighter.Stops .tilde (front ++ '"' :: (opened ++ '"' :: (text ++ Family.tilde.token ++ behind))) := by
  intro stops
  have outside := Family.tilde.quote_outside
  generalize shape : front ++ '"' :: (opened ++ '"' :: (text ++ Family.tilde.token ++ behind)) = whole at stops
  induction stops generalizing front opened text behind with
  | still none =>
      cases opens with
      | here inside _ _ _ => exact none _ (shape ▸ locate_opened clear inside stopped lacks behind)
      | dropped inside _ _ => exact none _ (shape ▸ Family.locate_between outside outside clear inside _)
  | @again whole found located _ ih =>
      cases opens with
      | @here _ line rest opening inside split fresh named =>
          have same := locate_opened clear inside stopped lacks behind
          rw [shape, located] at same
          cases same
          have raw : Span.raw .tilde ⟨front ++ ['"'] ++ opening.before, opening.language, opening.behind ++ '"' :: text, behind⟩ =
              Family.tilde.opener opening.language ++ (opening.behind ++ '"' :: text) ++ Family.tilde.token := rfl
          have before : Family.tilde.Clear (front ++ '"' :: (opening.before ++ '<' :: "div class=".toList)) := by
            rw [Family.clear_apart outside, Family.clear_apart Family.tilde.bracket_outside.1]
            exact ⟨clear, Family.findOpening_first (Family.locate_unclosed_iff.mp inside).1, by decide⟩
          obtain ⟨first, last, put, ends, bare, hidden⟩ :=
            opened_written plain unstyled inside split fresh named entire stopped lacks uncovered
          refine @ih _ _ first (last ++ behind) before wrapper (escape_markup_entire _) ends bare hidden ?_
          rw [raw, put]
          simp [Span.splice]
      | @dropped _ span fault inside parsed later =>
          have same := Family.locate_between outside outside clear inside (text ++ Family.tilde.token ++ behind)
          rw [shape, located] at same
          cases same
          have raw : Span.raw .tilde ⟨front ++ '"' :: span.before, span.language, span.body,
              span.behind ++ '"' :: (text ++ Family.tilde.token ++ behind)⟩ = span.raw .tilde := rfl
          have parts := Family.entire_spliced inside entire
          have kept : (span.splice []).Entire := by
            rw [Span.splice, List.append_nil]
            exact Text.entire_append parts.1 parts.2
          refine @ih _ _ _ behind clear later kept stopped lacks uncovered ?_
          rw [raw, written_nothing parsed]
          simp [Span.splice]

theorem fragment_opened (plain : highlighter.engine = Engine.plain) (unstyled : highlighter.Unstyled Family.tilde.token)
    (opens : Family.tilde.Opens highlighter.wrapperClass.escapeMarkup) : ∃ raw html, ∃ language : Language,
      highlighter.fragment 0 raw language = .ok html ∧ ¬ highlighter.Stops .tilde html := by
  have stopped : Family.tilde.Stopped ['a'] := ⟨[], 'a', rfl, by decide, by decide⟩
  obtain ⟨first, last, made, ends, bare, hidden⟩ := fragment_stopped plain unstyled stopped (by decide) (by decide) .json
  exact ⟨_, _, .json, made 0, opened_forever plain unstyled opens (by decide) opens (escape_markup_entire _) ends bare hidden⟩

end Highlighter
end CodeFence
