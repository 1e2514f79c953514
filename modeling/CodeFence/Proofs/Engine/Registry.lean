import CodeFence.Engine.Sample
import CodeFence.Proofs.Engine.Library

set_option autoImplicit false

namespace CodeFence

def Grammar.Faithful (grammar : Grammar) : Prop :=
  ∀ line, (grammar line).flatMap Piece.text = line

def Registry.Faithful (registry : Registry) : Prop :=
  ∀ entry ∈ registry.grammars, Grammar.Faithful entry.2

namespace Token

theorem after_text (blanks : Text) (token : Token) : (after blanks token).flatMap Token.text = blanks ++ token.text := by
  by_cases empty : blanks.isEmpty
  · have none : blanks = [] := List.isEmpty_iff.mp empty
    simp [after, none]
  · by_cases decorated : token.decorated
    · simp [after, empty, decorated, ofBlanks]
    · simp [after, empty, decorated]

theorem merge_text (blanks : Text) (tokens : List Token) (some : tokens ≠ []) :
    (mergeBlanks blanks tokens).flatMap Token.text = blanks ++ tokens.flatMap Token.text := by
  induction tokens generalizing blanks with
  | nil => exact absurd rfl some
  | cons token rest ih =>
      cases rest with
      | nil => simp [mergeBlanks, after_text]
      | cons next rest =>
          have more : next :: rest ≠ [] := List.cons_ne_nil next rest
          have split : (token :: next :: rest).flatMap Token.text = token.text ++ (next :: rest).flatMap Token.text := List.flatMap_cons
          by_cases blank : token.blank
          · rw [mergeBlanks, if_pos blank, ih _ more, split, List.append_assoc]
          · rw [mergeBlanks, if_neg blank, List.flatMap_append, after_text, ih _ more, split, List.append_assoc, List.nil_append]

end Token

namespace Registry

variable {registry : Registry}

theorem tokens_text (style : Option Text → Themed Style) {grammar : Grammar} (faithful : grammar.Faithful) (line : Text) :
    (tokens style grammar line).flatMap Token.text = line := by
  have cut := faithful line
  cases pieces : grammar line with
  | nil =>
      rw [pieces] at cut
      rw [tokens, pieces, List.map_nil, Token.mergeBlanks]
      exact cut
  | cons piece rest =>
      rw [pieces] at cut
      rw [tokens, pieces, Token.merge_text [] _ (by simp), List.nil_append, List.flatMap_map, ← cut]

theorem highlight_made {code grammar : Text} {theme : Themed Text} {result : Highlighted}
    (made : registry.highlight code grammar theme = .ok result) :
    ∃ cut style, (grammar, cut) ∈ registry.grammars ∧ result.lines = (codeLines code).map (tokens style cut) := by
  unfold highlight at made
  split at made
  · cases made
  · cases found : registry.grammars.lookup grammar with
    | none =>
        rw [found] at made
        cases made
    | some cut =>
        rw [found] at made
        cases dressed : registry.dress theme with
        | error message =>
            rw [dressed] at made
            cases made
        | ok themes =>
            rw [dressed] at made
            obtain ⟨front, back, split, -⟩ := List.lookup_eq_some_iff.mp found
            exact ⟨cut, _, by simp [split], congrArg Highlighted.lines (Except.ok.inj made).symm⟩

theorem unlines_codeLines (code : Text) : Text.unlines (codeLines code) = normalizeLineEnds code := by
  cases code with
  | nil => rfl
  | cons c rest => exact Text.unlines_lines _

theorem library_faithful (faithful : registry.Faithful) : registry.library.Faithful := by
  intro request result made
  obtain ⟨cut, style, member, lines⟩ := highlight_made made
  have whole (line : Text) : (tokens style cut line).flatMap Token.text = line := tokens_text style (faithful _ member) line
  have kept : result.lines.map (fun line => line.flatMap Token.text) = codeLines request.code := by
    rw [lines, List.map_map]
    exact (List.map_congr_left fun line _ => whole line).trans (List.map_id _)
  rw [Highlighted.text, kept, unlines_codeLines]

theorem theme_known {name : Text} (known : (registry.themes.lookup (key name)).isSome) : ∃ theme, registry.theme? name = .ok theme := by
  obtain ⟨theme, found⟩ := Option.isSome_iff_exists.mp known
  exact ⟨theme, by simp only [theme?, found]⟩

theorem library_documented (registry : Registry) : registry.library.Documented where
  known request known := by
    obtain ⟨cut, found⟩ := Option.isSome_iff_exists.mp known.grammar
    obtain ⟨light, lighter⟩ := theme_known known.light
    obtain ⟨dark, darker⟩ := theme_known known.dark
    refine ⟨⟨.dual light.backdrop dark.backdrop, (codeLines request.code).map
      (tokens (fun scope => .dual (light.style scope) (dark.style scope)) cut)⟩, light.backdrop, dark.backdrop, ?_, rfl⟩
    have linked : registry.linked = true := known.linked
    change registry.highlight request.code request.language.grammar (.dual request.themes.light request.themes.dark) = _
    simp only [highlight, linked, found, dress, lighter, darker]
    rfl
  rows request result made filled := by
    obtain ⟨cut, style, -, lines⟩ := highlight_made made
    obtain ⟨c, rest, shape⟩ := List.exists_cons_of_ne_nil filled
    rw [lines, List.length_map, shape]
    rfl
  empty request result made empty := by
    obtain ⟨cut, style, -, lines⟩ := highlight_made made
    rw [lines, empty]
    rfl

end Registry

namespace Sample

theorem run_front {allowed : Char → Bool} {text found : Text} (ran : run? allowed text = some found) : found <+: text := by
  unfold run? at ran
  cases taken : text.takeWhile allowed with
  | nil =>
      rw [taken] at ran
      cases ran
  | cons c rest =>
      rw [taken] at ran
      obtain rfl := Option.some.inj ran
      rw [← taken]
      exact List.takeWhile_prefix allowed

theorem enclosed_front {mark : Char} {allowed : Char → Bool} {text found : Text}
    (enclosed : enclosed? mark allowed text = some found) : found <+: text := by
  cases text with
  | nil => cases enclosed
  | cons c rest =>
      by_cases opened : c = mark
      · have whole : rest.takeWhile allowed ++ rest.dropWhile allowed = rest := List.takeWhile_append_dropWhile
        rw [enclosed?, if_pos opened, List.span_eq_takeWhile_dropWhile] at enclosed
        cases behind : rest.dropWhile allowed with
        | nil =>
            rw [behind] at enclosed
            cases enclosed
        | cons d tail =>
            rw [behind] at enclosed whole
            by_cases closed : d = mark
            · obtain rfl := Option.some.inj ((if_pos closed).symm.trans enclosed)
              rw [closed] at whole
              rw [opened]
              exact ⟨tail, by simpa using whole⟩
            · cases (if_neg closed).symm.trans enclosed
      · cases (if_neg opened).symm.trans enclosed

theorem handle_front {text found : Text} (handled : handle? text = some found) : found <+: text := by
  unfold handle? at handled
  split at handled
  · obtain ⟨run, ran, rfl⟩ := Option.map_eq_some_iff.mp handled
    exact List.cons_prefix_cons.mpr ⟨rfl, run_front ran⟩
  · cases handled

theorem match_front {text : Text} {piece : Piece} (matched : match? text = some piece) : piece.text <+: text := by
  obtain ⟨pattern, member, found⟩ := List.exists_of_findSome?_eq_some matched
  obtain ⟨chars, front, rfl⟩ := Option.map_eq_some_iff.mp found
  simp only [patterns, List.mem_cons, List.not_mem_nil, or_false] at member
  rcases member with rfl | rfl | rfl | rfl | rfl | rfl
  · exact run_front front
  · exact enclosed_front front
  · exact handle_front front
  · exact run_front front
  · exact run_front front
  · exact enclosed_front front

theorem gap_text (between : Text) : (gap between).flatMap Piece.text = between := by
  cases between with
  | nil => rfl
  | cons c rest => simp [gap]

theorem cut_text (bound : Nat) (between line : Text) : (cut bound between line).flatMap Piece.text = between ++ line := by
  induction bound generalizing between line with
  | zero =>
      cases line with
      | nil => simp [cut, gap_text]
      | cons c rest => simp [cut, gap_text]
  | succ bound ih =>
      cases line with
      | nil => simp [cut, gap_text]
      | cons c rest =>
          cases matched : match? (c :: rest) with
          | none => simp [cut, matched, ih]
          | some piece =>
              obtain ⟨behind, split⟩ := match_front matched
              simp only [cut, matched, List.flatMap_append, List.flatMap_cons, gap_text, ih, List.nil_append]
              rw [← split, List.drop_left]

theorem registry_faithful (linked : Bool) : (registry linked).Faithful := by
  intro entry held line
  obtain ⟨language, -, rfl⟩ := List.mem_map.mp held
  exact cut_text line.length [] line

end Sample

end CodeFence
