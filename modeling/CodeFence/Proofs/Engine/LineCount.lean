import CodeFence.Config
import CodeFence.Engine.Builtin
import CodeFence.Engine.Plain
import CodeFence.Engine.Sample
import CodeFence.Highlighter
import CodeFence.Proofs.Engine.Registry
import CodeFence.Proofs.Engine.Rows
import CodeFence.Proofs.Highlighter

set_option autoImplicit false

namespace CodeFence

theorem Text.lines_length (text : Text) : text.lines.length = text.count '\n' + 1 := by
  induction text with
  | nil => rfl
  | cons c rest ih =>
      by_cases newline : c = '\n'
      · subst newline
        have split : lines ('\n' :: rest) = [] :: lines rest := lines_break [] rest
        rw [split, List.length_cons, ih, List.count_cons_self]
      · have other : (c == '\n') = false := beq_eq_false_iff_ne.mpr newline
        rw [lines, List.splitOn_cons_eq_if_modifyHead, other, if_neg Bool.false_ne_true, List.length_modifyHead,
          List.count_cons_of_ne newline]
        exact ih

def Element.lineCount (root : Element) : Nat :=
  (Node.element root).elements.countP fun element => (element.2.get? lineNumber).isSome

theorem Element.Shows.lineCount {α : Type} {text : α → Text} {styled : α → Text → Prop} {root : Element} {ranges : List LineRange}
    {rows : List (List α)} (shows : root.Shows text styled ranges rows) : root.lineCount = rows.length := by
  have counted := congrArg List.length shows.numbers
  rw [List.length_filterMap_eq_countP, List.length_map, List.length_range'] at counted
  exact counted

namespace Highlighter

variable {highlighter : Highlighter} {library : Library}

def plainly (highlighter : Highlighter) : Highlighter :=
  { highlighter with engine := Engine.plain }

theorem plain_shown (highlighter : Highlighter) (earlier : Nat) (code : Text) (language : Language) (ranges : List LineRange) :
    ∃ shown, highlighter.plainly.tree earlier code language ranges = .ok shown ∧ shown.lineCount = code.lines.length := by
  have shows := block_shows ranges "fake".toList (styleText (Plain.block highlighter.stem highlighter.themes))
    (code.lines.map (Plain.line highlighter.stem highlighter.themes))
  refine ⟨_, rfl, ?_⟩
  exact shows.lineCount.trans (List.length_map _)

theorem library_shown (engine : highlighter.engine = library.engine) (documented : library.Documented) {code : Text}
    {language : Language} (known : library.Knows (highlighter.request code language)) (earlier : Nat) (ranges : List LineRange) :
    ∃ shown result, highlighter.tree earlier code language ranges = .ok shown ∧
      library.highlighted (highlighter.request code language) = .ok result ∧ shown.lineCount = result.lines.length := by
  obtain ⟨result, light, dark, made, dual⟩ := documented.known _ known
  obtain ⟨root, answered, shows⟩ := (library.tokens_shown (highlighter.request code language) earlier).2 result light dark made dual
  refine ⟨root.numberLines ranges, result, ?_, made, (shows ranges).lineCount⟩
  rw [tree_settled, engine, answered]
  rfl

-- The library shows each line of a code, as the plain engine does of the code with its line ends made alike, just when
-- there is a code; the two agree on the code itself if besides no carriage return in it stands alone.
theorem lines_shown_iff (documented : library.Documented) (engine : highlighter.engine = library.engine) (raw : Text)
    (language : Language) (known : library.Knows (highlighter.request (code raw) language)) (earlier : Nat) (ranges : List LineRange) :
    ∃ shown, highlighter.tree earlier (code raw) language ranges = .ok shown ∧
      (shown.lineCount = (normalizeLineEnds (code raw)).lines.length ↔ code raw ≠ []) ∧
      (∃ plain, highlighter.plainly.tree earlier (normalizeLineEnds (code raw)) language ranges = .ok plain ∧
        plain.lineCount = (normalizeLineEnds (code raw)).lines.length) ∧
      ∃ plain, highlighter.plainly.tree earlier (code raw) language ranges = .ok plain ∧
        (shown.lineCount = plain.lineCount ↔ code raw ≠ [] ∧ (code raw).loneReturns = 0) := by
  obtain ⟨shown, result, made, highlighted, rows⟩ := library_shown engine documented known earlier ranges
  obtain ⟨plain, plainMade, plainRows⟩ := plain_shown highlighter earlier (code raw) language ranges
  have breaks := normalizeLineEnds_breaks (code raw)
  refine ⟨shown, made, ?_, plain_shown highlighter earlier _ language ranges, plain, plainMade, ?_⟩
  · by_cases empty : code raw = []
    · rw [rows, documented.empty _ _ highlighted empty, Text.lines_length]
      simp [empty]
    · rw [rows, documented.rows _ _ highlighted empty]
      simp [empty, request]
  · by_cases empty : code raw = []
    · rw [rows, documented.empty _ _ highlighted empty, plainRows, Text.lines_length]
      simp [empty]
    · rw [rows, documented.rows _ _ highlighted empty, plainRows, Text.lines_length, Text.lines_length]
      simp [empty, request, breaks]

-- Of the three lines of the code one ends with a carriage return alone, so the plain engine shows two.
theorem lines_shown_returns :
    let library := (Sample.registry true).library
    let highlighter : Highlighter := { engine := library.engine, themes := ⟨"Mini-Dark".toList, "mini-flat".toList⟩ }
    let raw : Text := "///highlight:2\na\r\nb1\rc\n".toList
    library.Documented ∧ library.Knows (highlighter.request (code raw) .ts) ∧
      (normalizeLineEnds (code raw)).lines.length = 3 ∧
      ∃ shown plain, highlighter.tree 0 (code raw) .ts (Directive.parse raw).lines = .ok shown ∧ shown.lineCount = 3 ∧
        highlighter.plainly.tree 0 (code raw) .ts (Directive.parse raw).lines = .ok plain ∧ shown.lineCount ≠ plain.lineCount := by
  intro library highlighter raw
  have documented := Registry.library_documented (Sample.registry true)
  have known : library.Knows (highlighter.request (code raw) .ts) := ⟨rfl, by decide, by decide, by decide⟩
  have lines : (normalizeLineEnds (code raw)).lines.length = 3 := by decide +kernel
  have filled : code raw ≠ [] := by decide +kernel
  have lone : (code raw).loneReturns = 1 := by decide +kernel
  obtain ⟨shown, made, counted, -, plain, plainMade, agree⟩ := lines_shown_iff documented rfl raw .ts known 0 (Directive.parse raw).lines
  refine ⟨documented, known, lines, shown, plain, made, (counted.mpr filled).trans lines, plainMade, fun same => ?_⟩
  have none := (agree.mp same).2
  rw [lone] at none
  cases none

-- An empty block: the plain engine shows its one empty line, the library that comes with the tool shows none.
theorem empty_code_unlined :
    let library := Builtin.registry.library
    let highlighter : Highlighter := ({} : Config).highlighter library.engine
    library.Documented ∧ library.Knows (highlighter.request (code []) .ts) ∧ (normalizeLineEnds (code [])).lines.length = 1 ∧
      ∃ shown plain, highlighter.tree 0 (code []) .ts (Directive.parse []).lines = .ok shown ∧ shown.lineCount = 0 ∧
        highlighter.plainly.tree 0 (code []) .ts (Directive.parse []).lines = .ok plain ∧ plain.lineCount = 1 := by
  intro library highlighter
  exact ⟨Registry.library_documented _, ⟨rfl, by decide, by decide, by decide⟩, rfl, _, _, rfl, by decide, rfl, by decide⟩

end Highlighter
end CodeFence
