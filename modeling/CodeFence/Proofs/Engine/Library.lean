import CodeFence.Engine.Library
import CodeFence.Proofs.Engine.Tokens
import CodeFence.Proofs.Text.Lines
import CodeFence.Proofs.Text.Substitute

set_option autoImplicit false

namespace CodeFence

def Highlighted.text (result : Highlighted) : Text :=
  Text.unlines (result.lines.map fun line => line.flatMap Token.text)

theorem Highlighted.tree_chars (request : Request) (result : Highlighted) : (result.tree request).chars = result.text := by
  have texts (line : List Token) : (line.map (Token.styled request.stem request.themes)).flatMap Styled.text = line.flatMap Token.text := by
    rw [List.flatMap_map]
    rfl
  rw [tree, block_chars, List.map_map, text]
  exact congrArg Text.unlines (List.map_congr_left fun line _ => texts line)

namespace Library

variable {library : Library} {request : Request} {root : Element}

theorem answer_refused {message : Text} (refused : library.highlighted request = .error message) :
    library.answer request = .failure (.highlightEngine message) := by
  simp only [answer, refused]

theorem answer_dual {result : Highlighted} {light dark : Backdrop} (made : library.highlighted request = .ok result)
    (dual : result.theme = .dual light dark) : library.answer request = .tree (result.tree request) := by
  simp only [answer, made, dual]

theorem answer_tree (answered : library.answer request = .tree root) :
    ∃ result, library.highlighted request = .ok result ∧ root = result.tree request := by
  unfold answer at answered
  cases made : library.highlighted request with
  | error message =>
      rw [made] at answered
      cases answered
  | ok result =>
      cases theme : result.theme with
      | single backdrop =>
          simp only [made, theme] at answered
          cases answered
      | dual light dark =>
          simp only [made, theme, Answer.tree.injEq] at answered
          exact ⟨result, rfl, answered.symm⟩

def Faithful (library : Library) : Prop :=
  ∀ request result, library.highlighted request = .ok result → result.text = normalizeLineEnds request.code

theorem answer_chars (faithful : library.Faithful) (answered : library.answer request = .tree root) :
    root.chars = normalizeLineEnds request.code := by
  obtain ⟨result, made, rfl⟩ := answer_tree answered
  rw [Highlighted.tree_chars]
  exact faithful request result made

structure Knows (library : Library) (request : Request) : Prop where
  linked : library.linked = true
  grammar : library.hasGrammar request.language.grammar = true
  light : library.hasTheme request.themes.light = true
  dark : library.hasTheme request.themes.dark = true

-- What is said of the library: it highlights what it knows in both of the themes that it is given; line ends are made
-- alike and each line of a code has a list of tokens; an empty code has none.
structure Documented (library : Library) : Prop where
  known : ∀ request, library.Knows request →
    ∃ result light dark, library.highlighted request = .ok result ∧ result.theme = .dual light dark
  rows : ∀ request result, library.highlighted request = .ok result → request.code ≠ [] →
    result.lines.length = (normalizeLineEnds request.code).lines.length
  empty : ∀ request result, library.highlighted request = .ok result → request.code = [] → result.lines = []

end Library

theorem normalize_pair (rest : Text) : normalizeLineEnds ('\r' :: '\n' :: rest) = '\n' :: normalizeLineEnds rest := by
  have found : Text.row? [("\r\n".toList, "\n".toList), ("\r".toList, "\n".toList)] ('\r' :: '\n' :: rest) =
      some ("\r\n".toList, "\n".toList) := rfl
  exact @Text.substitute_at _ ("\r\n".toList, "\n".toList) rest (by decide) found

theorem normalize_lone {rest : Text} (lone : ∀ more : Text, rest ≠ '\n' :: more) :
    normalizeLineEnds ('\r' :: rest) = '\n' :: normalizeLineEnds rest := by
  have unpaired : Text.strip? "\r\n".toList ('\r' :: rest) = none := by
    rw [Text.strip_eq_none_iff]
    rintro ⟨more, split⟩
    exact lone more (List.cons.inj split).2.symm
  have found : Text.row? [("\r\n".toList, "\n".toList), ("\r".toList, "\n".toList)] ('\r' :: rest) =
      some ("\r".toList, "\n".toList) := by
    rw [Text.row?, List.find?_cons, unpaired]
    rfl
  exact @Text.substitute_at _ ("\r".toList, "\n".toList) rest (by decide) found

theorem normalize_other {c : Char} (other : c ≠ '\r') (rest : Text) : normalizeLineEnds (c :: rest) = c :: normalizeLineEnds rest := by
  have marked (mark : Text) (found : '\r' :: mark <+: c :: rest) : False := other (List.cons_prefix_cons.mp found).1.symm
  refine Text.substitute_kept (Text.row_absent ?_)
  simp only [List.forall_mem_cons]
  exact ⟨marked ['\n'], marked [], List.forall_mem_nil _⟩

-- How many carriage returns stand in a text without a line feed behind them.
def Text.loneReturns : Text → Nat
  | [] => 0
  | '\r' :: '\n' :: rest => loneReturns rest
  | '\r' :: rest => loneReturns rest + 1
  | _ :: rest => loneReturns rest

theorem normalizeLineEnds_breaks (code : Text) : (normalizeLineEnds code).count '\n' = code.count '\n' + code.loneReturns := by
  fun_induction Text.loneReturns code with
  | case1 => rfl
  | case2 rest ih =>
      rw [normalize_pair, List.count_cons_self, ih, List.count_cons_of_ne (by decide), List.count_cons_self]
      omega
  | case3 rest single ih =>
      rw [normalize_lone single, List.count_cons_self, ih, List.count_cons_of_ne (by decide)]
      omega
  | case4 c rest pair single ih =>
      rw [normalize_other single, List.count_cons, List.count_cons, ih]
      omega

theorem normalizeLineEnds_tildes (code : Text) : (normalizeLineEnds code).count '~' = code.count '~' := by
  have marked : ∀ row ∈ ([("\r\n".toList, "\n".toList), ("\r".toList, "\n".toList)] : List Substitution), row.1 ≠ [] := by decide
  have unseen : ∀ row ∈ ([("\r\n".toList, "\n".toList), ("\r".toList, "\n".toList)] : List Substitution),
      row.2.filter (· == '~') = row.1.filter (· == '~') := by decide
  rw [List.count_eq_length_filter, List.count_eq_length_filter, normalizeLineEnds, Text.substitute_filter marked unseen]

end CodeFence
