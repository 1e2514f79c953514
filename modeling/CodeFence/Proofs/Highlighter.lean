import CodeFence.Document.Run
import CodeFence.Proofs.Hiding
import CodeFence.Proofs.Markup.Marks
import CodeFence.Proofs.Text.Occurrences

set_option autoImplicit false

namespace CodeFence

open Text (Lacks Divider)

namespace Highlighter

variable {highlighter : Highlighter} {earlier : Nat} {raw html : Text} {language : Language}

theorem wrap_lacks {mark : Text} (fence : mark.FenceMark) :
    (highlighter.wrap html).Lacks mark ↔ highlighter.wrapperClass.Lacks mark ∧ html.Lacks mark := by
  have opened : Text.Breaks "<div class=\"".toList mark := Text.divider_breaks fence (by decide)
  have middle : Text.Breaks "\">".toList mark := Text.divider_breaks fence (by decide)
  have closed : Text.Breaks "</div>".toList mark := Text.divider_breaks fence (by decide)
  have parts := Text.lacks_framed opened middle closed highlighter.wrapperClass.escapeMarkup html
  rw [escape_markup_lacks fence] at parts
  exact parts

theorem wrap_bracketed (highlighter : Highlighter) (html : Text) : ∃ inner, highlighter.wrap html = '<' :: inner ++ ['>'] :=
  ⟨_, congrArg (List.cons '<') (List.append_assoc _ "</div".toList ['>']).symm⟩

theorem wrap_count {sign : Char} (outside : ∀ piece ∈ ["<div class=\"".toList, "\">".toList, "</div>".toList], sign ∉ piece)
    (highlighter : Highlighter) (html : Text) :
    (highlighter.wrap html).count sign = highlighter.wrapperClass.escapeMarkup.count sign + html.count sign := by
  simp only [List.forall_mem_cons] at outside
  obtain ⟨opened, middle, closed, -⟩ := outside
  exact Text.count_framed opened middle closed _ html

theorem tree_settled (highlighter : Highlighter) (earlier : Nat) (code : Text) (language : Language) (lines : List LineRange) :
    highlighter.tree earlier code language lines =
      ((highlighter.engine earlier (highlighter.request code language)).settle).map (Element.numberLines lines) :=
  rfl

theorem fragment_settled (highlighter : Highlighter) (earlier : Nat) (raw : Text) (language : Language) :
    highlighter.fragment earlier raw language =
      ((highlighter.engine earlier (highlighter.request (code raw) language)).settle).map fun root =>
        highlighter.wrap (root.numberLines (Directive.parse raw).lines).html.escapeTemplate := by
  unfold fragment fragmentCall treeCall ask Call.map
  cases (highlighter.engine earlier (highlighter.request (code raw) language)).settle with
  | ok root => rfl
  | error fault => rfl

theorem fragment_ok_iff : highlighter.fragment earlier raw language = .ok html ↔
    ∃ root, highlighter.engine earlier (highlighter.request (code raw) language) = .tree root ∧
      html = highlighter.wrap (root.numberLines (Directive.parse raw).lines).html.escapeTemplate := by
  rw [fragment_settled]
  cases answered : highlighter.engine earlier (highlighter.request (code raw) language) with
  | tree root =>
      constructor
      · exact fun made => ⟨root, rfl, (Except.ok.inj made).symm⟩
      · rintro ⟨_, ⟨⟩, rfl⟩
        rfl
  | failure fault =>
      constructor
      · exact fun made => by cases made
      · rintro ⟨_, ⟨⟩, -⟩
  | crash message =>
      constructor
      · exact fun made => by cases made
      · rintro ⟨_, ⟨⟩, -⟩

theorem fragment_error_iff {fault : Fault} : highlighter.fragment earlier raw language = .error fault ↔
    (highlighter.engine earlier (highlighter.request (code raw) language)).settle = .error fault := by
  rw [fragment_settled]
  cases (highlighter.engine earlier (highlighter.request (code raw) language)).settle with
  | ok root => simp [Except.map]
  | error cause => simp [Except.map]

theorem fragment_wraps (made : highlighter.fragment earlier raw language = .ok html) :
    ∃ markup : Text, html = highlighter.wrap markup.escapeTemplate := by
  obtain ⟨root, -, wrapped⟩ := fragment_ok_iff.mp made
  exact ⟨_, wrapped⟩

theorem fragment_bracketed (made : highlighter.fragment earlier raw language = .ok html) :
    ∃ inner, html = '<' :: inner ++ ['>'] := by
  obtain ⟨markup, rfl⟩ := fragment_wraps made
  exact wrap_bracketed highlighter markup.escapeTemplate

theorem fragment_backtick_lacks {mark : Text} (fence : mark.FenceMark) (grave : '\x60' ∈ mark)
    (plain : highlighter.wrapperClass.Lacks mark) (made : highlighter.fragment earlier raw language = .ok html) :
    html.Lacks mark := by
  obtain ⟨markup, rfl⟩ := fragment_wraps made
  exact (wrap_lacks fence).mpr ⟨plain, Text.lacks_absent grave (Text.escapeTemplate_safe markup).2.2⟩

theorem fragment_graveless (plain : '\x60' ∉ highlighter.wrapperClass)
    (made : highlighter.fragment earlier raw language = .ok html) : '\x60' ∉ html := by
  rw [← Text.lacks_single] at plain ⊢
  exact fragment_backtick_lacks (by decide) List.mem_cons_self plain made

theorem fragment_blank {blanks : Text} (blank : blanks.AllBlank) (highlighter : Highlighter) (earlier : Nat) (raw : Text)
    (language : Language) : highlighter.fragment earlier (raw ++ blanks) language = highlighter.fragment earlier raw language := by
  rw [fragment_settled, fragment_settled, code, code, Directive.parse_blank blank]

theorem fragment_steady (steady : highlighter.engine.Steady) (a b : Nat) (raw : Text) (language : Language) :
    highlighter.fragment a raw language = highlighter.fragment b raw language := by
  rw [fragment_settled, fragment_settled, steady a b]

theorem rendering_steady (steady : highlighter.engine.Steady) (a b : Nat) (family : Family) (raw : Text) :
    highlighter.rendering a family raw = highlighter.rendering b family raw := by
  unfold rendering
  cases Block.parse family raw with
  | error fault => rfl
  | ok block => simp only [fragmentCall, treeCall, ask, steady a b]

theorem spaces_divide : Divider [' ', ' '] := by decide

-- Only the placeholder of tildes puts tildes into a code.
theorem code_lacks {mark : Text} (fence : mark.FenceMark) (plain : '\x60' ∉ mark) (lacks : raw.Lacks mark)
    (uncovered : raw.Lacks Placeholder.tildeFence) : (code raw).Lacks mark := by
  have spaces : Text.Breaks [' ', ' '] Placeholder.tildeFence := by
    constructor
    · exact ⟨' ', rfl, by decide⟩
    · exact ⟨'&', rfl, by decide⟩
  have graves : Text.Breaks "```".toList mark := by
    obtain ⟨m, first, fenced⟩ := fence.1
    refine ⟨⟨'\x60', rfl, plain⟩, m, first, fun held => plain ?_⟩
    have same : m = '\x60' := by simpa using held
    exact same ▸ List.mem_of_mem_head? first
  have slashes : Text.Breaks "///".toList mark := Text.divider_breaks fence (by decide)
  have read := Directive.parse_code_lacks (Text.divider_breaks fence spaces_divide) lacks
  refine Text.lacks_part (Placeholder.restore_lacks read ?_) (Text.trim_inside _)
  simp only [Placeholder.table, List.forall_mem_cons]
  exact ⟨Or.inl graves, Or.inl slashes, Or.inr (Directive.parse_code_lacks spaces uncovered), List.forall_mem_nil _⟩

theorem code_firm {raw : Text} (firm : raw.Firm) : (code raw).Firm := by
  obtain ⟨-, -, -, trimmed⟩ := Text.trim_firm (Directive.expandTabs_firm firm)
  obtain ⟨-, -, -, asked⟩ := Text.trim_firm (Placeholder.restore_firm (Directive.read_firm trimmed))
  exact asked

theorem code_append (family : Family) {raw : Text} (firm : raw.Firm) : code (raw ++ family.token) = code raw ++ family.token := by
  have kept : '\t' ∉ family.token ∧ '\n' ∉ family.token ∧ ∀ c ∈ family.token, ∀ row ∈ Placeholder.table, c ∉ row.1 := by
    cases family <;> decide
  have tail : Text.Firm family.token := by
    cases family
    · exact ⟨['\x60', '\x60'], '\x60', rfl, by decide⟩
    · exact ⟨['~', '~'], '~', rfl, by decide⟩
  obtain ⟨-, -, -, trimmed⟩ := Text.trim_firm (Directive.expandTabs_firm firm)
  rw [code, code, Directive.parse_read, Directive.parse_read, Directive.expandTabs_append, Directive.expandTabs_id kept.1,
    Text.trim_append (Directive.expandTabs_firm firm) tail, Directive.read_append family.token_marked kept.2.1,
    Placeholder.restore_append kept.2.2, Text.trim_append (Placeholder.restore_firm (Directive.read_firm trimmed)) tail]

theorem code_before {spec body : Text} (single : '\n' ∉ spec) (filled : ¬ body.AllBlank)
    (plain : ¬ Directive.Leads (Directive.expandTabs body).trim) : code (Directive.before spec body) = code body := by
  rw [code, code, Directive.parse_before single filled, Directive.parse_read body, Directive.read_plain plain, Placeholder.restore_trim,
    Placeholder.restore_trim,
    Text.trim_trimEnd, Text.trim_trim]

theorem fragment_cover {rows : List Substitution} (chosen : ∀ row ∈ rows, row.swap ∈ Placeholder.table)
    (slashes : ∀ row ∈ rows, '/' ∉ row.1) (highlighter : Highlighter) (earlier : Nat) (raw : Text) (language : Language) :
    highlighter.fragment earlier (raw.substitute rows) language = highlighter.fragment earlier raw language := by
  rw [fragment_settled, fragment_settled, code, code, Directive.parse_cover chosen slashes, Placeholder.restore_cover chosen]

theorem code_hidden {text : Text} (plain : ∀ row ∈ Placeholder.table, text.Lacks row.1) :
    code (Placeholder.hide text) = (Directive.expandTabs text).trim := by
  have breaks : ∀ row ∈ Placeholder.table, Text.Breaks [' ', ' '] row.1 := by decide
  have trimmed : ∀ row ∈ Placeholder.table, (Directive.expandTabs text).trim.Lacks row.1 := by
    intro row member
    exact Text.lacks_part (Directive.expandTabs_lacks (breaks row member) (plain row member)) (Text.trim_inside _)
  rw [code, Directive.parse_hidden, Placeholder.restore_hidden trimmed, Text.trim_trim]

theorem rendering_parsed {family : Family} {block : Block} (parsed : Block.parse family raw = .ok block) :
    highlighter.rendering earlier family raw =
      ⟨[highlighter.request (code block.code) block.language], highlighter.fragment earlier block.code block.language⟩ := by
  simp only [rendering, parsed]
  rfl

theorem rendering_made {family : Family} (made : (highlighter.rendering earlier family raw).result = .ok html) :
    ∃ block, Block.parse family raw = .ok block ∧ highlighter.fragment earlier block.code block.language = .ok html := by
  unfold rendering at made
  cases parsed : Block.parse family raw with
  | error fault =>
      rw [parsed] at made
      cases made
  | ok block =>
      rw [parsed] at made
      exact ⟨block, rfl, made⟩

end Highlighter
end CodeFence
