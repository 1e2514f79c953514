import CodeFence.Proofs.Engine.Rows

set_option autoImplicit false

namespace CodeFence

def writtenRule (selector : Text) (settings : List (Text × Text)) : Text :=
  selector ++ " \x7b\n".toList
    ++ settings.flatMap (fun setting => "  ".toList ++ setting.1 ++ ": var(".toList ++ setting.2 ++ ");\n".toList)
    ++ "\x7d\n".toList

inductive Backdrop.Sets (name : Text) (backdrop : Backdrop) : Text × Text → Prop
  | foreground : Sets name backdrop (name, backdrop.foreground.hex)
  | background : Sets name backdrop (name ++ "-bg".toList, backdrop.background.hex)

def StyleRule.Reads (rule : StyleRule) (name : Text) : Prop :=
  ∃ target, (target, name) ∈ rule.settings

inductive Side
  | dark
  | light
deriving DecidableEq, Repr

namespace Side

def name (request : Request) : Side → Text
  | dark => request.stem ++ request.themes.dark
  | light => request.stem ++ request.themes.light

def backdrop (result : Highlighted) : Side → Backdrop
  | dark => result.theme.dark
  | light => result.theme.light

def style (token : Token) : Side → Style
  | dark => token.style.dark
  | light => token.style.light

-- The two rules that the style sheet has for a theme; `selector` gives the selector of each theme.
def blockRule (request : Request) (selector : Side → Text) (side : Side) : StyleRule :=
  ThemePair.blockRule (selector side) (side.name request)

def tokenRule (request : Request) (selector : Side → Text) (side : Side) : StyleRule :=
  ThemePair.tokenRule (selector side) (side.name request)

end Side

theorem StyleRule.text_written (rule : StyleRule) : rule.text = writtenRule rule.selector rule.settings := rfl

theorem Backdrop.sets_read {selector name : Text} {backdrop : Backdrop} {entry : Text × Text} (sets : backdrop.Sets name entry) :
    (ThemePair.blockRule selector name).Reads entry.1 := by
  cases sets with
  | foreground => exact ⟨_, List.mem_cons_self⟩
  | background => exact ⟨_, List.mem_cons_of_mem _ List.mem_cons_self⟩

theorem Backdrop.read_sets {selector name : Text} {setting : Text × Text}
    (read : setting ∈ (ThemePair.blockRule selector name).settings) (backdrop : Backdrop) :
    ∃ value, backdrop.Sets name (setting.2, value) := by
  simp only [ThemePair.blockRule, List.mem_cons, List.not_mem_nil, or_false] at read
  rcases read with rfl | rfl
  · exact ⟨_, .foreground⟩
  · exact ⟨_, .background⟩

theorem Style.sets_read {selector name : Text} {style : Style} {entry : Text × Text} (sets : style.Sets name entry) :
    (ThemePair.tokenRule selector name).Reads entry.1 := by
  cases sets with
  | color => exact ⟨"color".toList, by simp [ThemePair.tokenRule]⟩
  | italic _ => exact ⟨"font-style".toList, by simp [ThemePair.tokenRule]⟩
  | bold _ => exact ⟨"font-weight".toList, by simp [ThemePair.tokenRule]⟩
  | underline _ => exact ⟨"text-decoration".toList, by simp [ThemePair.tokenRule]⟩

theorem Style.color_read {selector name color : Text} (read : ("color".toList, color) ∈ (ThemePair.tokenRule selector name).settings) :
    color = name := by
  simpa [ThemePair.tokenRule] using read

theorem block_entries (request : Request) (result : Highlighted) (entry : Text × Text) :
    entry ∈ (blockDeclarations request.stem request.themes result.theme.dark result.theme.light).map Declaration.entry ↔
      ∃ side : Side, (side.backdrop result).Sets (side.name request) entry := by
  simp only [blockDeclarations, colorDeclarations, List.map_cons, List.map_nil, Declaration.entry,
    List.cons_append, List.nil_append, List.append_nil, List.mem_cons, List.not_mem_nil, or_false]
  constructor
  · rintro (rfl | rfl | rfl | rfl)
    · exact ⟨.dark, .foreground⟩
    · exact ⟨.light, .foreground⟩
    · exact ⟨.dark, .background⟩
    · exact ⟨.light, .background⟩
  · rintro ⟨_ | _, _ | _⟩ <;> simp [Side.name, Side.backdrop]

theorem block_row_at (className style : Text) {rows : List (List Styled)} {place : Nat} {pieces : List Styled}
    (row : rows[place]? = some pieces) (way : List Nat) :
    (blockElement className style rows).at? (0 :: 2 * place :: way) = (lineElement pieces).at? way := by
  have lined : (rows.map fun pieces => Node.element (lineElement pieces))[place]? = some (.element (lineElement pieces)) := by
    rw [List.getElem?_map, row]
    rfl
  exact line_way lined (_, _) (_, _) (.text ['\n']) way

namespace Highlighted

-- The tree of highlighted tokens and the style sheet of its themes agree on the custom properties. The sheet is made of
-- the two rules of each theme. The style of the block, and that of each token, is made of entries that one of the themes
-- sets and that the rule of this theme reads; what the rule for blocks reads and the color that the rule for tokens
-- reads are set.
structure Agrees (request : Request) (result : Highlighted) (selector : Side → Text) : Prop where
  sheet : request.themes.stylesheet request.stem (selector .dark) (selector .light) = [Side.dark, .light].flatMap fun side =>
    writtenRule (selector side ++ " pre".toList) (side.blockRule request selector).settings
      ++ writtenRule (selector side ++ " pre span".toList) (side.tokenRule request selector).settings
  block : ∃ entries, (result.tree request).property? "style".toList = some (.str (writtenEntries entries)) ∧
    (∀ entry ∈ entries, ∃ side : Side, (side.backdrop result).Sets (side.name request) entry ∧
      (side.blockRule request selector).Reads entry.1) ∧
    ∀ side : Side, ∀ setting ∈ (side.blockRule request selector).settings, ∃ entry ∈ entries,
      (side.backdrop result).Sets (side.name request) entry ∧ entry.1 = setting.2
  tokens : ∀ (place : Nat) row, result.lines[place]? = some row → ∀ (index : Nat) token, row[index]? = some token →
    ∃ span entries, (result.tree request).at? [0, 2 * place, index] = some span ∧ span.children = [.text token.text] ∧
      span.property? "style".toList = some (.str (writtenEntries entries)) ∧
      (∀ entry ∈ entries, ∃ side : Side, (side.style token).Sets (side.name request) entry ∧
        (side.tokenRule request selector).Reads entry.1) ∧
      ∀ side : Side, ∀ name, ("color".toList, name) ∈ (side.tokenRule request selector).settings → ∃ entry ∈ entries,
        (side.style token).Sets (side.name request) entry ∧ entry.1 = name

theorem variables_agree (request : Request) (result : Highlighted) (selector : Side → Text) : result.Agrees request selector where
  sheet := by
    simp only [ThemePair.stylesheet, ThemePair.rules, List.flatMap_cons, List.flatMap_nil, List.cons_append, List.nil_append,
      StyleRule.text_written, List.append_nil, List.append_assoc]
    rfl
  block := by
    refine ⟨_, congrArg (fun style => some (Property.str style)) (styleText_entries _), fun entry held => ?_, fun side setting read => ?_⟩
    · obtain ⟨side, sets⟩ := (block_entries request result entry).mp held
      exact ⟨side, sets, Backdrop.sets_read sets⟩
    · obtain ⟨value, sets⟩ := Backdrop.read_sets read (side.backdrop result)
      exact ⟨_, (block_entries request result _).mpr ⟨side, sets⟩, sets, rfl⟩
  tokens place line row index token held := by
    have rowed : (result.lines.map fun line => line.map (Token.styled request.stem request.themes))[place]? =
        some (line.map (Token.styled request.stem request.themes)) := by
      rw [List.getElem?_map, row]
      rfl
    have pieced : (line.map (Token.styled request.stem request.themes))[index]? =
        some (Token.styled request.stem request.themes token) := by
      rw [List.getElem?_map, held]
      rfl
    obtain ⟨entries, written, sets⟩ := token.styled_as request
    refine ⟨(token.styled request.stem request.themes).element, entries, (block_row_at _ _ rowed [index]).trans (Element.at_child (piece_at pieced) []), rfl,
      congrArg (fun style => some (Property.str style)) written, fun entry listed => ?_, fun side name read => ?_⟩
    · rcases (sets entry).mp listed with dark | light
      · exact ⟨.dark, dark, Style.sets_read dark⟩
      · exact ⟨.light, light, Style.sets_read light⟩
    · obtain rfl := Style.color_read read
      have own : (side.style token).Sets (side.name request) (side.name request, (side.style token).color.hex) := .color
      refine ⟨_, (sets _).mpr ?_, own, rfl⟩
      cases side with
      | dark => exact Or.inl own
      | light => exact Or.inr own

end Highlighted
end CodeFence
