import CodeFence.Proofs.Document.Stops
import CodeFence.Proofs.Markup.Entire

set_option autoImplicit false

namespace CodeFence

open Text (Lacks)

/-- A block that can be read stands in the text, as it is or when those that cannot be read are dropped. -/
inductive Family.Plants (family : Family) : Text → Prop
  | here {text : Text} {span : Span} {block : Block} : family.locate text = .closed span →
      Block.parse family (span.raw family) = .ok block → Plants family text
  | dropped {text : Text} {span : Span} {fault : Fault} : family.locate text = .closed span →
      Block.parse family (span.raw family) = .error fault → Plants family (span.splice []) → Plants family text

/-- An opener with no token behind it stands in the text, as it is or when blocks that cannot be read are dropped, and
its line can be read. -/
inductive Family.Opens (family : Family) : Text → Prop
  | here {text line rest : Text} {opening : Opening} : family.locate text = .unclosed opening →
      opening.behind = line ++ '\n' :: rest → '\n' ∉ line → (Language.ofTag? (opening.language.tag ++ line).trim).isSome →
      Opens family text
  | dropped {text : Text} {span : Span} {fault : Fault} : family.locate text = .closed span →
      Block.parse family (span.raw family) = .error fault → Opens family (span.splice []) → Opens family text

namespace Family

variable {family : Family}

theorem quote_outside (family : Family) : family.Outside '"' := by
  cases family <;> decide

theorem plants_closed {text : Text} (plants : family.Plants text) : ∃ span, family.locate text = .closed span := by
  cases plants with
  | here located _ => exact ⟨_, located⟩
  | dropped located _ _ => exact ⟨_, located⟩

end Family

namespace Highlighter

variable {highlighter : Highlighter} {family : Family}

theorem wrap_quoted (highlighter : Highlighter) (html : Text) : highlighter.wrap html = "<div class=".toList ++
    '"' :: (highlighter.wrapperClass.escapeMarkup ++ '"' :: ('>' :: html ++ "</div>".toList)) := by
  have shape (front wrapper markup last : Text) : front ++ ['"'] ++ wrapper ++ ['"', '>'] ++ markup ++ last =
      front ++ '"' :: (wrapper ++ '"' :: ('>' :: markup ++ last)) := by
    simp
  exact shape "<div class=".toList highlighter.wrapperClass.escapeMarkup html "</div>".toList

theorem fragment_quoted {earlier : Nat} {raw html : Text} {language : Language}
    (made : highlighter.fragment earlier raw language = .ok html) : ∃ markup : Text, html = "<div class=".toList ++
      '"' :: (highlighter.wrapperClass.escapeMarkup ++ '"' :: ('>' :: markup.escapeTemplate ++ "</div>".toList)) := by
  obtain ⟨markup, rfl⟩ := fragment_wraps made
  exact ⟨markup, wrap_quoted highlighter markup.escapeTemplate⟩

theorem written_quoted (plain : highlighter.engine = Engine.plain) {raw : Text} {block : Block}
    (parsed : Block.parse family raw = .ok block) : ∃ rest, highlighter.written family raw =
      '<' :: ("div class=".toList ++ '"' :: (highlighter.wrapperClass.escapeMarkup ++ '"' :: rest)) := by
  obtain ⟨html, made⟩ := plain_made plain block.code block.language
  obtain ⟨markup, shape⟩ := fragment_quoted (made 0)
  exact ⟨'>' :: markup.escapeTemplate ++ "</div>".toList, (written_made parsed (made 0)).trans shape⟩

theorem planted_forever (plain : highlighter.engine = Engine.plain) (wrapper : family.Plants highlighter.wrapperClass.escapeMarkup)
    {front planted rest : Text} (clear : family.Clear front) (plants : family.Plants planted) :
    ¬ highlighter.Stops family (front ++ '"' :: (planted ++ '"' :: rest)) := by
  intro stops
  have outside := family.quote_outside
  generalize shape : front ++ '"' :: (planted ++ '"' :: rest) = text at stops
  induction stops generalizing front planted rest with
  | still none =>
      obtain ⟨span, located⟩ := Family.plants_closed plants
      exact none _ (shape ▸ Family.locate_between outside outside clear located rest)
  | @again text found located _ ih =>
      cases plants with
      | @here _ span block inside parsed =>
          have whole := Family.locate_between outside outside clear inside rest
          rw [shape, located] at whole
          cases whole
          have raw : Span.raw family ⟨front ++ '"' :: span.before, span.language, span.body, span.behind ++ '"' :: rest⟩ =
              span.raw family := rfl
          obtain ⟨more, put⟩ := written_quoted plain parsed
          have before : family.Clear (front ++ '"' :: (span.before ++ '<' :: "div class=".toList)) := by
            have quiet : family.Clear "div class=".toList := by cases family <;> decide
            rw [Family.clear_apart outside, Family.clear_apart family.bracket_outside.1]
            exact ⟨clear, Family.locate_before_clear inside, quiet⟩
          refine @ih _ _ (more ++ span.behind ++ '"' :: rest) before wrapper ?_
          rw [raw, put]
          simp only [Span.splice, List.append_assoc, List.cons_append]
      | @dropped _ span fault inside parsed later =>
          have whole := Family.locate_between outside outside clear inside rest
          rw [shape, located] at whole
          cases whole
          have raw : Span.raw family ⟨front ++ '"' :: span.before, span.language, span.body, span.behind ++ '"' :: rest⟩ =
              span.raw family := rfl
          refine @ih _ _ rest clear later ?_
          rw [raw, written_nothing parsed]
          simp [Span.splice]

theorem fragment_planted (plain : highlighter.engine = Engine.plain) (plants : family.Plants highlighter.wrapperClass.escapeMarkup)
    {earlier : Nat} {raw html : Text} {language : Language} (made : highlighter.fragment earlier raw language = .ok html) :
    ¬ highlighter.Stops family html := by
  obtain ⟨markup, rfl⟩ := fragment_quoted made
  have clear : family.Clear "<div class=".toList := by cases family <;> decide
  exact planted_forever plain plants clear plants

-- The block that begins in the wrapper class and ends behind its quote.
theorem unopened_nothing {planted : Text} {opening : Opening} (located : family.locate planted = .unclosed opening)
    (opens : ¬ family.Opens planted) (inner : Text) :
    highlighter.written family (family.opener opening.language ++ (opening.behind ++ '"' :: inner) ++ family.token) = [] := by
  cases parsed : Block.parse family (family.opener opening.language ++ (opening.behind ++ '"' :: inner) ++ family.token) with
  | error fault => exact written_nothing parsed
  | ok block =>
      obtain ⟨line, rest, split, fresh, named⟩ := Block.parse_quoted parsed
      exact absurd (.here located split fresh named) opens

-- A wrapper class that plants no block is done with before what stands behind it, unless it opens one.
theorem quoted_stops {front planted quiet behind : Text} (clear : family.Clear front) (plants : ¬ family.Plants planted)
    (opens : Text.Lacks (quiet ++ '>' :: behind) family.token ∨ ¬ family.Opens planted) (sharp : family.Sharp quiet)
    (later : ∀ done rest, family.Clear done → rest <:+ behind → highlighter.Stops family (done ++ rest)) :
    highlighter.Stops family (front ++ '"' :: (planted ++ '"' :: (quiet ++ '>' :: behind))) := by
  have outside := family.quote_outside
  have bracket := family.bracket_outside.2
  induction size : planted.length using Nat.strong_induction_on generalizing planted with
  | _ size ih =>
  cases located : family.locate planted with
  | clear =>
      have done : family.Clear (front ++ '"' :: (planted ++ '"' :: (quiet ++ ['>']))) := by
        rw [Family.clear_apart outside, Family.clear_apart outside, Family.clear_apart bracket]
        exact ⟨clear, Family.locate_clear_iff.mp located, Family.sharp_clear sharp, family.clear_nil⟩
      simpa using later _ behind done List.suffix_rfl
  | unclosed opening =>
      have whole := Family.locate_clear_apart outside clear (planted ++ '"' :: (quiet ++ '>' :: behind))
      rw [Family.locate_unclosed_apart outside located] at whole
      cases cut : Text.cut? family.token (quiet ++ '>' :: behind) with
      | none =>
          refine .still fun span other => ?_
          rw [whole, cut] at other
          cases other
      | some parts =>
          obtain ⟨inner, last⟩ := parts
          rw [cut] at whole
          have unopened := opens.resolve_left fun lacks => by
            rw [Text.cut_eq_none_iff.mpr lacks] at cut
            cases cut
          have before : family.Clear (front ++ ['"'] ++ opening.before) := by
            rw [List.append_assoc, List.singleton_append, Family.clear_apart outside]
            exact ⟨clear, Family.findOpening_first (Family.locate_unclosed_iff.mp located).1⟩
          obtain ⟨done, rest, same, bare, suffix⟩ := Family.cut_sharp before sharp bracket cut
          refine .again whole ?_
          change highlighter.Stops family (front ++ ['"'] ++ opening.before ++
            highlighter.written family (family.opener opening.language ++ (opening.behind ++ '"' :: inner) ++ family.token) ++ last)
          rw [unopened_nothing located unopened, List.append_nil, same]
          exact later done rest bare suffix
  | closed span =>
      have whole := Family.locate_between outside outside clear located (quiet ++ '>' :: behind)
      cases parsed : Block.parse family (span.raw family) with
      | ok block => exact absurd (.here located parsed) plants
      | error fault =>
          have raw : Span.raw family ⟨front ++ '"' :: span.before, span.language, span.body,
              span.behind ++ '"' :: (quiet ++ '>' :: behind)⟩ = span.raw family := rfl
          have shorter : (span.splice []).length < planted.length := by
            have token := List.length_pos_iff.mpr family.token_marked
            have lengths := congrArg List.length (Family.locate_parts located)
            simp only [Span.splice, Span.raw, List.length_append, List.length_nil] at lengths ⊢
            omega
          have rest := ih _ (size ▸ shorter) (fun more => plants (.dropped located parsed more))
            (opens.imp_right fun none more => none (.dropped located parsed more)) rfl
          refine .again whole ?_
          rw [raw, written_nothing parsed]
          simpa [Span.splice] using rest

theorem unplanted_stops (plants : ¬ Family.backtick.Plants highlighter.wrapperClass.escapeMarkup) {earlier : Nat}
    {raw html : Text} {language : Language} (made : highlighter.fragment earlier raw language = .ok html) :
    highlighter.Stops .backtick html := by
  obtain ⟨markup, rfl⟩ := fragment_quoted made
  have clear : Family.backtick.Clear "<div class=".toList := by decide
  have safe := (Text.escapeTemplate_safe markup).2.2
  have front : '\x60' ∉ '>' :: markup.escapeTemplate ++ "</div".toList := by simp [safe]
  have whole : '\x60' ∉ '>' :: markup.escapeTemplate ++ "</div".toList ++ ['>'] := by simp [safe]
  have later (done rest : Text) (bare : Family.backtick.Clear done) (suffix : rest <:+ []) :
      highlighter.Stops .backtick (done ++ rest) := by
    rw [List.suffix_nil.mp suffix, List.append_nil]
    exact stops_clear bare
  have stops := quoted_stops clear plants (Or.inl (Text.lacks_absent List.mem_cons_self whole))
    (Family.sharp_of_token (Text.lacks_absent List.mem_cons_self front)) later
  simpa using stops

theorem tildes_stop (plain : highlighter.engine = Engine.plain)
    (shown : ∀ before code language html behind, Family.tilde.Clear before → Family.tilde.Sharp code →
      code.Lacks Placeholder.tildeFence → highlighter.fragment 0 code language = .ok html →
      (∀ done rest, Family.tilde.Clear done → rest <:+ behind → highlighter.Stops .tilde (done ++ rest)) →
      highlighter.Stops .tilde (before ++ html ++ behind))
    {done rest : Text} (clear : Family.tilde.Clear done) (uncovered : rest.Lacks Placeholder.tildeFence) :
    highlighter.Stops .tilde (done ++ rest) := by
  induction size : rest.length using Nat.strong_induction_on generalizing done rest with
  | _ size ih =>
  cases located : Family.tilde.locate (done ++ rest) with
  | clear => exact stops_clear (Family.locate_clear_iff.mp located)
  | unclosed opening =>
      refine .still fun span other => ?_
      rw [located] at other
      cases other
  | closed span =>
      obtain ⟨used, split⟩ := Family.locate_behind_clear clear located
      have shorter := Family.locate_behind_shorter clear located
      have before := Family.locate_before_clear located
      have later (done last : Text) (bare : Family.tilde.Clear done) (suffix : last <:+ span.behind) :
          highlighter.Stops .tilde (done ++ last) := by
        have inside : last <:+: rest := by
          rw [split, ← List.append_assoc]
          exact (suffix.trans (List.suffix_append _ _)).isInfix
        exact ih _ (size ▸ Nat.lt_of_le_of_lt suffix.length_le shorter) bare (Text.lacks_part uncovered inside) rfl
      refine .again located ?_
      cases parsed : Block.parse .tilde (span.raw .tilde) with
      | error fault =>
          rw [written_nothing parsed, Span.splice, List.append_nil]
          exact later span.before span.behind before List.suffix_rfl
      | ok block =>
          obtain ⟨sharp, inside⟩ := Family.parse_code_sharp located parsed
          obtain ⟨html, made⟩ := plain_made plain block.code block.language
          have free : block.code.Lacks Placeholder.tildeFence := by
            refine Text.lacks_part uncovered (inside.trans ?_)
            rw [split]
            exact ⟨used, span.behind, by simp⟩
          rw [written_made parsed (made 0), Span.splice]
          exact shown span.before block.code block.language html span.behind before sharp free (made 0) later

theorem unmarked_stops (plain : highlighter.engine = Engine.plain)
    (unmarked : ∀ language, highlighter.Unmarked (Family.tilde.opener language)) {text : Text}
    (uncovered : text.Lacks Placeholder.tildeFence) : highlighter.Stops .tilde text := by
  refine tildes_stop plain (fun before code language html behind clear sharp free made later => ?_) Family.tilde.clear_nil uncovered
  have quiet : Family.tilde.Clear html := by
    intro tag
    have apart : '\x60' ∉ Family.tilde.opener tag := by cases tag <;> decide
    have lacks := code_lacks (Family.tilde.opener_fence_mark tag) apart (Family.sharp_clear sharp tag) free
    exact plain_lacks plain (Family.tilde.opener_fence_mark tag) (unmarked tag) lacks made
  obtain ⟨inner, rfl⟩ := fragment_bracketed made
  exact later _ behind (Family.sealed_bracketed clear quiet).1 List.suffix_rfl

theorem unopened_stops (plain : highlighter.engine = Engine.plain) (unstyled : highlighter.Unstyled Family.tilde.token)
    (plants : ¬ Family.tilde.Plants highlighter.wrapperClass.escapeMarkup)
    (opens : ¬ Family.tilde.Opens highlighter.wrapperClass.escapeMarkup) {text : Text}
    (uncovered : text.Lacks Placeholder.tildeFence) : highlighter.Stops .tilde text := by
  refine tildes_stop plain (fun before code language html behind clear sharp free made later => ?_) Family.tilde.clear_nil uncovered
  rw [plain_fragment plain, Except.ok.injEq] at made
  have quiet : Family.tilde.Sharp ('>' :: highlighter.markup (Highlighter.code code) language (Directive.parse code).lines ++ "</div".toList) := by
    have markup : Family.tilde.Sharp (highlighter.markup (Highlighter.code code) language (Directive.parse code).lines) := by
      intro c inside
      have longer := (List.prefix_append Family.tilde.token [c]).isInfix
      have apart : '\x60' ∉ Family.tilde.token ++ [c] := fun held => by
        obtain ⟨tag, opener⟩ := not_forall_not.mp inside
        rcases List.mem_append.mp held with mark | last
        · exact absurd mark (by decide)
        · rw [← List.mem_singleton.mp last] at opener
          revert opener
          cases tag <;> decide
      have styles := unstyled.imp (Text.lacks_longer · longer) (Text.lacks_longer · longer)
      exact markup_lacks (Family.sharp_mark inside) styles (code_lacks (Family.sharp_mark inside) apart (sharp c inside) free) language _
    have last := Family.sharp_apart Family.tilde.bracket_outside.1 markup (Family.sharp_of_token (by decide : Lacks "/div".toList _))
    exact @Family.sharp_apart .tilde '>' Family.tilde.bracket_outside.2 [] _ (Family.sharp_of_token (by decide)) last
  have front : Family.tilde.Clear (before ++ '<' :: "div class=".toList) :=
    (Family.clear_apart Family.tilde.bracket_outside.1 _ _).mpr ⟨clear, by decide⟩
  have stops := quoted_stops front plants (Or.inr opens) quiet later
  rw [← made, wrap_quoted]
  simpa using stops

end Highlighter
end CodeFence
