import CodeFence.Proofs.Engine.Library
import CodeFence.Proofs.Markup.Lines

set_option autoImplicit false

namespace CodeFence

def numberedLine (ranges : List LineRange) (line : Nat) (pieces : List Styled) : Element :=
  ⟨"span".toList, (lineNumber, .int line) :: (if LineRange.covers ranges line then [(lineHighlighted, .flag)] else []),
    pieces.map fun piece => .element piece.element⟩

def numberedRows (ranges : List LineRange) (first : Nat) (rows : List (List Styled)) : List Node :=
  ((rows.zipIdx first).map fun row => Node.element (numberedLine ranges row.2 row.1)).intersperse (.text ['\n'])

def numberedBlock (ranges : List LineRange) (style : Text) (rows : List (List Styled)) : Element :=
  ⟨"pre".toList, [("style".toList, .str style)], [.element ⟨"code".toList, [], numberedRows ranges 1 rows⟩]⟩

theorem Element.at_child {root child : Element} {position : Nat} (held : root.children[position]? = some (.element child))
    (way : List Nat) : root.at? (position :: way) = child.at? way := by
  simp only [Element.at?, held]

-- With something put between two children, the place of a child doubles.
theorem interspersed_at {nodes : List Node} {place : Nat} {row : Element} (held : nodes[place]? = some (.element row))
    (between : Node) : (nodes.intersperse between)[2 * place]? = some (.element row) := by
  rw [List.getElem?_intersperse_two_mul, held]

theorem line_way {nodes : List Node} {place : Nat} {line : Element} (held : nodes[place]? = some (.element line))
    (block code : Text × Properties) (between : Node) (way : List Nat) :
    (⟨block.1, block.2, [.element ⟨code.1, code.2, nodes.intersperse between⟩]⟩ : Element).at? (0 :: 2 * place :: way) =
      line.at? way :=
  (Element.at_child rfl _).trans (Element.at_child (interspersed_at held between) way)

theorem piece_at {pieces : List Styled} {index : Nat} {piece : Styled} (held : pieces[index]? = some piece) :
    (pieces.map fun piece => Node.element piece.element)[index]? = some (.element piece.element) := by
  rw [List.getElem?_map, held]
  rfl

section Numbering

variable (ranges : List LineRange)

theorem annotate_pieces (line : Nat) (pieces : List Styled) :
    Node.annotateAll (numberLine ranges) line (pieces.map fun piece => .element piece.element) =
      (pieces.map fun piece => .element piece.element, line) := by
  induction pieces with
  | nil => rfl
  | cons piece pieces ih =>
      have kept : (Node.element piece.element).annotate (numberLine ranges) line = (.element piece.element, line) := rfl
      rw [List.map_cons, Node.annotateAll, kept, ih]

theorem number_class (line : Nat) : Properties.number ranges line [("class".toList, .str lineClass)] =
    (lineNumber, .int line) :: (if LineRange.covers ranges line then [(lineHighlighted, .flag)] else []) := by
  have unranged : Properties.number [] line [("class".toList, .str lineClass)] = [(lineNumber, .int line)] := rfl
  by_cases covered : LineRange.covers ranges line = true
  · rw [Properties.number_covered covered, unranged, if_pos covered]
    rfl
  · rw [Properties.number_uncovered covered, unranged, if_neg covered]

theorem annotate_line (line : Nat) (pieces : List Styled) :
    (Node.element (lineElement pieces)).annotate (numberLine ranges) line =
      (.element (numberedLine ranges line pieces), line + 1) := by
  have classed : Properties.hasClass lineClass [("class".toList, .str lineClass)] = true := by decide
  have counted : numberLine ranges line "span".toList [("class".toList, .str lineClass)] =
      (Properties.number ranges line [("class".toList, .str lineClass)], line + 1) := if_pos classed
  rw [lineElement, Node.annotate, counted, annotate_pieces, number_class, numberedLine]

theorem numberedRows_cons (first : Nat) (row : List Styled) {rest : List (List Styled)} (more : rest ≠ []) :
    numberedRows ranges first (row :: rest) =
      .element (numberedLine ranges first row) :: .text ['\n'] :: numberedRows ranges (first + 1) rest := by
  obtain ⟨second, rest, rfl⟩ := List.exists_cons_of_ne_nil more
  rfl

theorem annotate_rows (first : Nat) (rows : List (List Styled)) :
    Node.annotateAll (numberLine ranges) first
        ((rows.map fun pieces => Node.element (lineElement pieces)).intersperse (.text ['\n'])) =
      (numberedRows ranges first rows, first + rows.length) := by
  induction rows generalizing first with
  | nil => rfl
  | cons row rest ih =>
      cases rest with
      | nil =>
          rw [List.map_singleton, List.intersperse_singleton, Node.annotateAll, annotate_line]
          rfl
      | cons second rest =>
          have tail := ih (first + 1)
          rw [List.map_cons] at tail
          rw [List.map_cons, List.map_cons, List.intersperse_cons_cons, Node.annotateAll, annotate_line, Node.annotateAll,
            Node.annotate, tail, numberedRows_cons ranges first row (List.cons_ne_nil second rest)]
          simp only [List.length_cons, Prod.mk.injEq, true_and]
          omega

theorem number_lines_block (className style : Text) (rows : List (List Styled)) :
    (blockElement className style rows).numberLines ranges = numberedBlock ranges style rows := by
  have shape : (((blockElement className style rows).eraseProperty "class".toList).eraseProperty "tabindex".toList) =
      ⟨"pre".toList, [("style".toList, .str style)], [.element (codeElement rows)]⟩ := rfl
  have unclassed : numberLine ranges 1 "code".toList [] = ([], 1) := rfl
  rw [Element.numberLines, shape, Element.annotate, Node.annotateAll, codeElement, Node.annotate, unclassed, annotate_rows]
  rfl

end Numbering

def Properties.FlagFits (ranges : List LineRange) (properties : Properties) : Prop :=
  ∀ value, properties.get? lineHighlighted = some value ↔ value = .flag ∧
    ∃ line, properties.get? lineNumber = some (.int line) ∧ ∃ range ∈ ranges, range.first ≤ line ∧ line ≤ range.last

-- A tree shows rows of items as its lines: of all its elements the lines have a number, counted up from 1, with the
-- flags that the ranges ask for, and each item stands in the line of its row as a span of its text that has a style only.
structure Element.Shows {α : Type} (text : α → Text) (styled : α → Text → Prop) (root : Element) (ranges : List LineRange)
    (rows : List (List α)) : Prop where
  numbers : (Node.element root).elements.filterMap (fun element => element.2.get? lineNumber) =
    (List.range' 1 rows.length).map Property.int
  flags : ∀ element ∈ (Node.element root).elements, element.2.FlagFits ranges
  lines : ∀ (place : Nat) row, rows[place]? = some row → ∃ line, root.at? [0, 2 * place] = some line ∧
    line.property? lineNumber = some (.int (place + 1)) ∧ line.children.length = row.length
  items : ∀ (place : Nat) row, rows[place]? = some row → ∀ (index : Nat) item, row[index]? = some item →
    ∃ span style, root.at? [0, 2 * place, index] = some span ∧ span.property? "style".toList = some (.str style) ∧
      styled item style ∧ span.property? lineNumber = none ∧ span.property? lineHighlighted = none ∧
      span.children = [.text (text item)]
  chars : root.chars = Text.unlines (rows.map fun row => row.flatMap text)

theorem Element.Shows.of_map {α β : Type} {text : β → Text} {styled : β → Text → Prop} {make : α → β} {root : Element}
    {ranges : List LineRange} {rows : List (List α)} (shows : root.Shows text styled ranges (rows.map fun row => row.map make)) :
    root.Shows (text ∘ make) (styled ∘ make) ranges rows where
  numbers := by simpa using shows.numbers
  flags := shows.flags
  lines place row found := by
    have made : (rows.map fun row => row.map make)[place]? = some (row.map make) := by simp [found]
    simpa using shows.lines place _ made
  items place row found index item held := by
    have made : (rows.map fun row => row.map make)[place]? = some (row.map make) := by simp [found]
    exact shows.items place _ made index (make item) (by simp [held])
  chars := by
    rw [shows.chars, List.map_map]
    refine congrArg Text.unlines (List.map_congr_left fun row _ => ?_)
    exact List.flatMap_map make text row

def Styled.entry (piece : Styled) : Text × Properties :=
  ("span".toList, [("style".toList, .str piece.style)])

section Shown

variable (ranges : List LineRange)

theorem pieces_elements (pieces : List Styled) :
    Node.allElements (pieces.map fun piece => .element piece.element) = pieces.map Styled.entry := by
  induction pieces with
  | nil => rfl
  | cons piece pieces ih =>
      rw [List.map_cons, Node.allElements, ih]
      rfl

theorem line_elements (line : Nat) (pieces : List Styled) : (Node.element (numberedLine ranges line pieces)).elements =
    ("span".toList, (numberedLine ranges line pieces).properties) :: pieces.map Styled.entry := by
  rw [numberedLine, Node.elements, pieces_elements]

theorem rows_elements (first : Nat) (rows : List (List Styled)) : Node.allElements (numberedRows ranges first rows) =
    (rows.zipIdx first).flatMap fun row => (Node.element (numberedLine ranges row.2 row.1)).elements := by
  induction rows generalizing first with
  | nil => rfl
  | cons row rest ih =>
      cases rest with
      | nil => rfl
      | cons second rest =>
          rw [numberedRows_cons ranges first row (List.cons_ne_nil second rest), Node.allElements, Node.allElements, ih,
            List.zipIdx_cons, List.flatMap_cons]
          rfl

theorem block_elements (style : Text) (rows : List (List Styled)) : (Node.element (numberedBlock ranges style rows)).elements =
    ("pre".toList, [("style".toList, .str style)]) :: ("code".toList, []) ::
      (rows.zipIdx 1).flatMap fun row => (Node.element (numberedLine ranges row.2 row.1)).elements := by
  rw [numberedBlock, Node.elements, Node.allElements, Node.elements, rows_elements]
  exact congrArg (fun below => _ :: below) (List.append_nil _)

theorem line_numbers (line : Nat) (pieces : List Styled) :
    (Node.element (numberedLine ranges line pieces)).elements.filterMap (fun element => element.2.get? lineNumber) = [.int line] := by
  have bare : (pieces.map Styled.entry).filterMap (fun element => element.2.get? lineNumber) = [] := by
    rw [List.filterMap_map, List.filterMap_eq_nil_iff]
    exact fun piece _ => rfl
  rw [line_elements, List.filterMap_cons, bare]
  rfl

theorem block_numbers (style : Text) (rows : List (List Styled)) :
    (Node.element (numberedBlock ranges style rows)).elements.filterMap (fun element => element.2.get? lineNumber) =
      (List.range' 1 rows.length).map Property.int := by
  have counted : (fun row : List Styled × Nat => [Property.int row.2]) = fun row => [(Property.int ∘ Prod.snd) row] := rfl
  rw [block_elements, List.filterMap_cons, List.filterMap_cons]
  simp only [Properties.get?, List.filterMap_flatMap, line_numbers]
  rw [← List.zipIdx_map_snd 1 rows, List.map_map, List.map_eq_flatMap]
  rfl

theorem bare_flag_fits {properties : Properties} (unflagged : properties.get? lineHighlighted = none)
    (unnumbered : properties.get? lineNumber = none) : properties.FlagFits ranges := by
  intro value
  rw [unflagged, unnumbered]
  constructor
  · intro found
    cases found
  · rintro ⟨-, line, numbered, -⟩
    cases numbered

theorem line_flag_fits (line : Nat) (pieces : List Styled) : (numberedLine ranges line pieces).properties.FlagFits ranges := by
  intro value
  have number : (numberedLine ranges line pieces).properties.get? lineNumber = some (.int line) := rfl
  have flag : (numberedLine ranges line pieces).properties.get? lineHighlighted =
      if LineRange.covers ranges line then some .flag else none := by
    by_cases covered : LineRange.covers ranges line = true
    · rw [numberedLine, if_pos covered, if_pos covered]
      rfl
    · rw [numberedLine, if_neg covered, if_neg covered]
      rfl
  rw [number, flag, Option.ite_none_right_eq_some, LineRange.covers_iff]
  constructor
  · rintro ⟨inside, ⟨⟩⟩
    exact ⟨rfl, line, rfl, inside⟩
  · rintro ⟨rfl, _, ⟨⟩, inside⟩
    exact ⟨inside, rfl⟩

theorem block_flags (style : Text) (rows : List (List Styled)) :
    ∀ element ∈ (Node.element (numberedBlock ranges style rows)).elements, element.2.FlagFits ranges := by
  rw [block_elements]
  refine List.forall_mem_cons.mpr ⟨bare_flag_fits ranges rfl rfl, List.forall_mem_cons.mpr ⟨bare_flag_fits ranges rfl rfl, ?_⟩⟩
  intro element held
  obtain ⟨row, -, inside⟩ := List.mem_flatMap.mp held
  rw [line_elements] at inside
  rcases List.mem_cons.mp inside with rfl | piece
  · exact line_flag_fits ranges row.2 row.1
  · obtain ⟨piece, -, rfl⟩ := List.mem_map.mp piece
    exact bare_flag_fits ranges rfl rfl

theorem block_line_at (style : Text) {rows : List (List Styled)} {place : Nat} {pieces : List Styled}
    (row : rows[place]? = some pieces) (way : List Nat) : (numberedBlock ranges style rows).at? (0 :: 2 * place :: way) =
      (numberedLine ranges (place + 1) pieces).at? way := by
  have numbered : ((rows.zipIdx 1).map fun row => Node.element (numberedLine ranges row.2 row.1))[place]? =
      some (.element (numberedLine ranges (place + 1) pieces)) := by
    rw [List.getElem?_map, List.getElem?_zipIdx, row, Nat.add_comm 1 place]
    rfl
  exact line_way numbered (_, _) (_, _) (.text ['\n']) way

theorem block_shows (className style : Text) (rows : List (List Styled)) :
    ((blockElement className style rows).numberLines ranges).Shows Styled.text (fun piece style => style = piece.style) ranges rows where
  numbers := by
    rw [number_lines_block]
    exact block_numbers ranges style rows
  flags := by
    rw [number_lines_block]
    exact block_flags ranges style rows
  lines place pieces row := by
    rw [number_lines_block, block_line_at ranges style row]
    exact ⟨_, rfl, rfl, List.length_map _⟩
  items place pieces row index piece held := by
    rw [number_lines_block, block_line_at ranges style row]
    exact ⟨piece.element, piece.style, Element.at_child (piece_at held) [], rfl, rfl, rfl, rfl, rfl⟩
  chars := by rw [Element.numberLines_chars, block_chars]

end Shown

def writtenEntries (entries : List (Text × Text)) : Text :=
  ";".toList.intercalate (entries.map fun entry => entry.1 ++ ":".toList ++ entry.2)

-- What a style sets, for a theme whose custom properties begin with a name: the color, and what the font asks for.
inductive Style.Sets (name : Text) (style : Style) : Text × Text → Prop
  | color : Sets name style (name, style.color.hex)
  | italic : style.font.italic = true → Sets name style (name ++ "-font-style".toList, "italic".toList)
  | bold : style.font.bold = true → Sets name style (name ++ "-font-weight".toList, "bold".toList)
  | underline : style.font.underline = true → Sets name style (name ++ "-text-decoration".toList, "underline".toList)

def Token.StyledAs (request : Request) (token : Token) (style : Text) : Prop :=
  ∃ entries, style = writtenEntries entries ∧ ∀ entry, entry ∈ entries ↔
    token.style.dark.Sets (request.stem ++ request.themes.dark) entry ∨ token.style.light.Sets (request.stem ++ request.themes.light) entry

def Declaration.entry (declaration : Declaration) : Text × Text :=
  (declaration.name, declaration.value)

theorem styleText_entries (declarations : List Declaration) :
    styleText declarations = writtenEntries (declarations.map Declaration.entry) := by
  rw [writtenEntries, List.map_map]
  rfl

theorem Style.sets_iff {stem theme : Text} {style : Style} {entry : Text × Text} : style.Sets (stem ++ theme) entry ↔
    entry = (stem ++ theme, style.color.hex) ∨ entry ∈ (style.font.declarations stem theme).map Declaration.entry := by
  simp only [FontStyle.declarations, List.map_append, List.mem_append]
  constructor
  · rintro (_ | font | font | font)
    · exact Or.inl rfl
    · rw [if_pos font]
      exact Or.inr (Or.inl (Or.inl (List.mem_singleton_self _)))
    · rw [if_pos font]
      exact Or.inr (Or.inl (Or.inr (List.mem_singleton_self _)))
    · rw [if_pos font]
      exact Or.inr (Or.inr (List.mem_singleton_self _))
  · have declared {asked : Bool} {declaration : Declaration}
        (held : entry ∈ (if asked then [declaration] else []).map Declaration.entry) : asked = true ∧ entry = declaration.entry := by
      by_cases font : asked = true
      · rw [if_pos font] at held
        exact ⟨font, List.mem_singleton.mp held⟩
      · rw [if_neg font] at held
        cases held
    rintro (rfl | ((held | held) | held))
    · exact .color
    · obtain ⟨font, rfl⟩ := declared held
      exact .italic font
    · obtain ⟨font, rfl⟩ := declared held
      exact .bold font
    · obtain ⟨font, rfl⟩ := declared held
      exact .underline font

theorem Token.styled_as (request : Request) (token : Token) :
    token.StyledAs request (token.styled request.stem request.themes).style := by
  refine ⟨_, styleText_entries _, fun entry => ?_⟩
  rw [Style.sets_iff, Style.sets_iff]
  simp only [declarations, colorDeclarations, List.map_append, List.map_cons, List.map_nil, Declaration.entry, List.mem_append,
    List.mem_cons, List.not_mem_nil, or_false, List.append_nil]
  tauto

namespace Library

variable {library : Library}

-- Whatever tokens the lines have, numbering the tree finds one line for each list of tokens, and each token stands in
-- its line with the style that it sets. What the library refuses is a failure of the engine.
theorem tokens_shown (library : Library) (request : Request) (earlier : Nat) :
    (∀ message, library.highlighted request = .error message →
      library.engine earlier request = .failure (.highlightEngine message)) ∧
    ∀ result light dark, library.highlighted request = .ok result → result.theme = .dual light dark →
      ∃ root, library.engine earlier request = .tree root ∧ ∀ ranges,
        (root.numberLines ranges).Shows Token.text (Token.StyledAs request) ranges result.lines := by
  refine ⟨fun message refused => answer_refused refused, fun result light dark made dual => ?_⟩
  refine ⟨_, answer_dual made dual, fun ranges => ?_⟩
  have shows := block_shows ranges "giallo".toList
    (styleText (blockDeclarations request.stem request.themes result.theme.dark result.theme.light))
    (result.lines.map fun line => line.map (Token.styled request.stem request.themes))
  have items := shows.of_map
  refine ⟨items.numbers, items.flags, items.lines, fun place row found index token held => ?_, items.chars⟩
  obtain ⟨span, style, here, written, rfl, plain⟩ := items.items place row found index token held
  exact ⟨span, _, here, written, token.styled_as request, plain⟩

-- A token that is called as the class of a line, blank tokens and a line without tokens.
theorem tokens_shown_blank :
    let style : Themed Style := .dual ⟨.rgb 0x111111, { underline := true }⟩ ⟨.rgb 0xEEEEEE, { italic := true }⟩
    let lines : List (List Token) := [[⟨"line".toList, style⟩, ⟨"  ".toList, style⟩], [], [⟨"\t".toList, style⟩]]
    let backdrop : Backdrop := ⟨.rgb 0x222222, .rgb 0xFFFFFF⟩
    let library : Library := ⟨true, fun _ => true, fun _ => true, fun _ _ _ => .ok ⟨.dual backdrop backdrop, lines⟩⟩
    let request : Request := ⟨"line  \n\n\t".toList, .ts, ⟨"d".toList, "l".toList⟩, "--".toList⟩
    ∃ root, library.engine 0 request = .tree root ∧ (root.numberLines [⟨2, 3⟩]).chars = request.code ∧
      (root.numberLines [⟨2, 3⟩]).Shows Token.text (Token.StyledAs request) [⟨2, 3⟩] lines ∧
      (((root.numberLines [⟨2, 3⟩]).at? [0, 0, 0]).bind (·.property? "style".toList)) =
        some (.str "--d:#EEEEEE;--l:#111111;--d-font-style:italic;--l-text-decoration:underline".toList) := by
  intro style lines backdrop library request
  obtain ⟨root, answered, shows⟩ := (tokens_shown library request 0).2 ⟨.dual backdrop backdrop, lines⟩ backdrop backdrop rfl rfl
  have tree : Answer.tree (Highlighted.tree request ⟨.dual backdrop backdrop, lines⟩) = .tree root := answered
  obtain rfl := Answer.tree.inj tree
  exact ⟨_, answered, (shows _).chars.trans (by decide), shows _, by decide +kernel⟩

end Library
end CodeFence
