import CodeFence.Proofs.Engine.Plain
import CodeFence.Proofs.Markup.Reading

set_option autoImplicit false

namespace CodeFence

def Entity.templateSigns : Text := ['\x7b', '\x7d', '\x60']

def Text.Safe (text : Text) : Prop :=
  ∀ sign ∈ Entity.templateSigns, sign ∉ text

instance (text : Text) : Decidable text.Safe :=
  inferInstanceAs (Decidable (∀ sign ∈ Entity.templateSigns, sign ∉ text))

def Element.Unbracketed (root : Element) : Prop :=
  (Node.element root).Labelled Text.Unbracketed fun _ => True

theorem escape_template_signs (html : Text) : html.escapeTemplate.Safe := by
  have safe := Text.escapeTemplate_safe html
  simp only [Text.Safe, Entity.templateSigns, List.forall_mem_cons]
  exact ⟨safe.1, safe.2.1, safe.2.2, List.forall_mem_nil _⟩

theorem escape_markup_signs {sign : Char} (member : sign ∈ Entity.templateSigns) (text : Text) :
    text.escapeMarkup.count sign = text.count sign := by
  apply Text.flatMap_count
  intro c
  simp only [Entity.templateSigns, List.mem_cons, List.not_mem_nil, or_false] at member
  unfold Entity.markup
  rcases member with rfl | rfl | rfl
  · split <;> rfl
  · split <;> rfl
  · split <;> rfl

namespace Highlighter

variable {highlighter : Highlighter} {earlier : Nat} {raw html : Text} {language : Language}

theorem wrap_signs {sign : Char} (member : sign ∈ Entity.templateSigns) (highlighter : Highlighter) {markup : Text}
    (safe : markup.Safe) : (highlighter.wrap markup).count sign = highlighter.wrapperClass.count sign := by
  have outside : ∀ sign ∈ Entity.templateSigns, ∀ piece ∈ ["<div class=\"".toList, "\">".toList, "</div>".toList],
      sign ∉ piece := by decide
  rw [wrap_count (outside sign member), escape_markup_signs member, List.count_eq_zero.mpr (safe sign member), Nat.add_zero]

-- The wrapper is two tags, whatever its class.
theorem wrap_tags (highlighter : Highlighter) (markup : Text) :
    ∃ opened closed : Text, opened.Tag ∧ closed.Tag ∧ highlighter.wrap markup = opened ++ (markup ++ closed) := by
  have class_ := Text.escape_markup_unbracketed highlighter.wrapperClass
  have inner : Text.Unbracketed ("div class=\"".toList ++ highlighter.wrapperClass.escapeMarkup ++ ['"']) :=
    Text.unbracketed_append.mpr ⟨Text.unbracketed_append.mpr ⟨by decide, class_⟩, by decide⟩
  have opened : Text.Tag ("<div class=\"".toList ++ highlighter.wrapperClass.escapeMarkup ++ "\">".toList) :=
    ⟨_, congrArg (List.cons '<') (List.append_assoc _ ['"'] ['>']).symm, inner⟩
  have closed : Text.Tag "</div>".toList := ⟨"/div".toList, rfl, by decide⟩
  exact ⟨_, _, opened, closed, List.append_assoc _ _ _⟩

theorem wrap_readable {root : Element} (unbracketed : root.Unbracketed) (highlighter : Highlighter) :
    (highlighter.wrap root.html.escapeTemplate).readable = root.chars := by
  obtain ⟨opened, closed, front, back, split⟩ := wrap_tags highlighter root.html.escapeTemplate
  have inside := node_dropTags (Node.element root) unbracketed closed
  have behind := Text.dropTags_tag back []
  rw [List.append_nil] at behind
  rw [Text.readable, split, Text.dropTags_tag front, Element.html, inside, behind, Text.dropTags, List.append_nil,
    Text.unescape_written]
  cases root
  rfl

theorem fragment_safe_iff (made : highlighter.fragment earlier raw language = .ok html) :
    (∀ sign ∈ Entity.templateSigns, html.count sign = highlighter.wrapperClass.count sign) ∧
      (html.Safe ↔ highlighter.wrapperClass.Safe) := by
  obtain ⟨markup, rfl⟩ := fragment_wraps made
  have signs (sign : Char) (member : sign ∈ Entity.templateSigns) :=
    wrap_signs member highlighter (escape_template_signs markup)
  refine ⟨signs, forall₂_congr fun sign member => ?_⟩
  rw [← List.count_eq_zero, ← List.count_eq_zero, signs sign member]

theorem fragment_safe_signs :
    let highlighter : Highlighter := { engine := Engine.plain }
    ∃ html, highlighter.fragment 0 "\x7b\x60a\x60\x7d\n&tripgrave;".toList .svelte = .ok html ∧ html.Safe := by
  intro highlighter
  have made := @plain_fragment highlighter rfl 0 "\x7b\x60a\x60\x7d\n&tripgrave;".toList .svelte
  exact ⟨_, made, (fragment_safe_iff made).2.mpr (by decide)⟩

-- The class of the wrapper is escaped as markup only.
theorem wrapper_signs_unescaped :
    let highlighter : Highlighter := { engine := Engine.plain, wrapperClass := "\x7bx\x7d\x60".toList }
    ∃ html, highlighter.fragment 0 ['a'] .ts = .ok html ∧ ∀ sign ∈ Entity.templateSigns, sign ∈ html := by
  intro highlighter
  have made := @plain_fragment highlighter rfl 0 ['a'] .ts
  have stand : ∀ sign ∈ Entity.templateSigns, 0 < highlighter.wrapperClass.count sign := by decide
  have safe : (highlighter.markup (code ['a']) .ts (Directive.parse ['a']).lines).Safe := escape_template_signs _
  refine ⟨_, made, fun sign member => List.count_pos_iff.mp ?_⟩
  rw [wrap_signs member highlighter safe]
  exact stand sign member

theorem fragment_readable (made : highlighter.fragment earlier raw language = .ok html) :
    ∃ root, highlighter.engine earlier (highlighter.request (code raw) language) = .tree root ∧
      (root.Unbracketed → html.readable = root.chars) ∧
      (highlighter.engine = Engine.plain → html.readable = (Placeholder.restore (Directive.parse raw).code).trim) := by
  obtain ⟨root, answered, rfl⟩ := fragment_ok_iff.mp made
  have read (unbracketed : root.Unbracketed) :
      (highlighter.wrap (root.numberLines (Directive.parse raw).lines).html.escapeTemplate).readable = root.chars := by
    have numbered := number_lines_labelled (by decide) unbracketed (Directive.parse raw).lines
    rw [wrap_readable numbered, Element.numberLines_chars]
  refine ⟨root, answered, read, fun plain => ?_⟩
  rw [plain] at answered
  obtain rfl := Answer.tree.inj answered
  have named : ∀ tag ∈ Plain.names, tag.Unbracketed := by decide
  have fits : (Node.element (Plain.tree ⟨code raw, language, highlighter.themes, highlighter.stem⟩)).Fits Text.Unbracketed
      fun _ => True := Plain.tree_fits named (fun _ _ => trivial) trivial trivial (fun _ _ => trivial) language
  rw [read (fits_labelled _ fits), Plain.tree_chars]
  rfl

theorem fragment_readable_entities :
    let root : Element := ⟨"p".toList, [("title".toList, .str "a\">&lt;".toList)],
      [.text "&lbrace;<b>".toList, .element ⟨"i".toList, [], [.text "\x7b'".toList]⟩]⟩
    let highlighter : Highlighter := { engine := fun _ _ => .tree root, wrapperClass := "<\">".toList }
    let plain : Highlighter := { engine := Engine.plain }
    (∃ html, highlighter.fragment 0 ['a'] .ts = .ok html ∧ html.readable = "&lbrace;<b>\x7b'".toList) ∧
      ∃ html, plain.fragment 0 "///highlight:1\n &tripgrave; ".toList .md = .ok html ∧ html.readable = "```".toList := by
  intro root highlighter plain
  constructor
  · have made : highlighter.fragment 0 ['a'] .ts = .ok _ := fragment_ok_iff.mpr ⟨root, rfl, rfl⟩
    obtain ⟨other, answered, read, -⟩ := fragment_readable made
    obtain rfl := Answer.tree.inj answered
    have title : Properties.Fits Text.Unbracketed (fun _ => True) [("title".toList, .str "a\">&lt;".toList)] := by
      simp only [Properties.Fits, List.forall_mem_singleton]
      exact ⟨by decide, trivial⟩
    have inner : Properties.Fits Text.Unbracketed (fun _ => True) [] := List.forall_mem_nil _
    exact ⟨_, made, read ⟨by decide, title, trivial, ⟨by decide, inner, trivial, trivial⟩, trivial⟩⟩
  · have made := @plain_fragment plain rfl 0 "///highlight:1\n &tripgrave; ".toList .md
    obtain ⟨root, -, -, read⟩ := fragment_readable made
    exact ⟨_, made, read rfl⟩

end Highlighter
end CodeFence
