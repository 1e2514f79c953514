import CodeFence.Proofs.Text.Lacks
import CodeFence.Text.Blank
import Mathlib.Data.List.TakeWhile

set_option autoImplicit false

namespace CodeFence.Text

def AllBlank (text : Text) : Prop :=
  ∀ c ∈ text, isBlank c = true

def Visible (text : Text) : Prop :=
  text ≠ [] ∧ ∀ c ∈ text, isBlank c = false

def Solid (text : Text) : Prop :=
  (∀ c ∈ text.head?, isBlank c = false) ∧ ∀ c ∈ text.getLast?, isBlank c = false

-- A text that ends, and not with a blank.
def Firm (text : Text) : Prop :=
  ∃ front c, text = front ++ [c] ∧ isBlank c = false

instance (text : Text) : Decidable text.AllBlank :=
  inferInstanceAs (Decidable (∀ c ∈ text, isBlank c = true))

instance (text : Text) : Decidable text.Visible :=
  inferInstanceAs (Decidable (text ≠ [] ∧ ∀ c ∈ text, isBlank c = false))

instance (text : Text) : Decidable text.Solid :=
  inferInstanceAs (Decidable ((∀ c ∈ text.head?, isBlank c = false) ∧ ∀ c ∈ text.getLast?, isBlank c = false))

theorem trimStart_split (text : Text) : ∃ blanks, blanks.AllBlank ∧ text = blanks ++ text.trimStart := by
  refine ⟨text.takeWhile isBlank, ?_, List.takeWhile_append_dropWhile.symm⟩
  exact fun c held => List.mem_takeWhile_imp held

theorem trimEnd_split (text : Text) : ∃ blanks, blanks.AllBlank ∧ text = text.trimEnd ++ blanks := by
  obtain ⟨blanks, blank, split⟩ := trimStart_split text.reverse
  refine ⟨blanks.reverse, fun c held => blank c (List.mem_reverse.mp held), ?_⟩
  have mirrored := congrArg List.reverse split
  rwa [List.reverse_reverse, List.reverse_append] at mirrored

theorem trimStart_blank {blanks : Text} (blank : blanks.AllBlank) (rest : Text) :
    trimStart (blanks ++ rest) = rest.trimStart :=
  List.dropWhile_append_of_pos blank

theorem trimEnd_blank {blanks : Text} (blank : blanks.AllBlank) (rest : Text) :
    trimEnd (rest ++ blanks) = rest.trimEnd := by
  have mirrored : AllBlank blanks.reverse := fun c held => blank c (List.mem_reverse.mp held)
  rw [trimEnd, List.reverse_append]
  exact congrArg List.reverse (trimStart_blank mirrored rest.reverse)

theorem trimStart_head (text : Text) : ∀ c ∈ text.trimStart.head?, isBlank c = false := by
  intro c first
  have head := List.head?_dropWhile_not isBlank text
  rw [trimStart, Option.mem_def] at first
  rwa [first] at head

theorem trimStart_id {text : Text} (lead : ∀ c ∈ text.head?, isBlank c = false) : text.trimStart = text := by
  cases text with
  | nil => rfl
  | cons c rest => exact List.dropWhile_cons_of_neg (by simpa using lead c rfl)

theorem trimEnd_id {text : Text} (final : ∀ c ∈ text.getLast?, isBlank c = false) : text.trimEnd = text := by
  have mirrored : trimStart text.reverse = text.reverse := trimStart_id (by simpa using final)
  exact (congrArg List.reverse mirrored).trans (List.reverse_reverse text)

theorem trimEnd_last (text : Text) : ∀ c ∈ text.trimEnd.getLast?, isBlank c = false := by
  have head := trimStart_head text.reverse
  simpa [trimEnd, trimStart] using head

theorem trim_around {first blanks text : Text} (before : first.AllBlank) (behind : blanks.AllBlank)
    (solid : text.Solid) : trim (first ++ text ++ blanks) = text := by
  rw [trim, List.append_assoc, trimStart_blank before]
  cases text with
  | nil =>
      rw [List.nil_append, ← List.append_nil blanks, trimStart_blank behind]
      rfl
  | cons c rest =>
      have lead : trimStart (c :: rest ++ blanks) = c :: rest ++ blanks := trimStart_id (by simpa using solid.1)
      rw [lead, trimEnd_blank behind, trimEnd_id solid.2]

theorem trim_solid {text : Text} (solid : text.Solid) : text.trim = text := by
  simpa using @trim_around [] [] text (by simp [AllBlank]) (by simp [AllBlank]) solid

theorem trim_split (text : Text) :
    ∃ first blanks, first.AllBlank ∧ blanks.AllBlank ∧ text = first ++ text.trim ++ blanks ∧ text.trim.Solid := by
  obtain ⟨first, before, front⟩ := trimStart_split text
  obtain ⟨blanks, behind, back⟩ := trimEnd_split text.trimStart
  refine ⟨first, blanks, before, behind, ?_, ?_, trimEnd_last _⟩
  · rw [List.append_assoc]
    exact front.trans (congrArg (first ++ ·) back)
  · intro c head
    apply trimStart_head text c
    rw [back]
    rw [trim, Option.mem_def] at head
    simp [head]

theorem trim_inside (text : Text) : text.trim <:+: text := by
  obtain ⟨first, blanks, -, -, split, -⟩ := trim_split text
  exact ⟨first, blanks, split.symm⟩

theorem trim_trim (text : Text) : text.trim.trim = text.trim := by
  obtain ⟨-, -, -, -, -, solid⟩ := trim_split text
  exact trim_solid solid

theorem trim_blank {blanks : Text} (blank : blanks.AllBlank) (text : Text) : trim (text ++ blanks) = text.trim := by
  obtain ⟨first, last, before, behind, split, solid⟩ := trim_split text
  have longer : (last ++ blanks).AllBlank := fun c held => (List.mem_append.mp held).elim (behind c) (blank c)
  conv_lhs => rw [split, List.append_assoc]
  exact trim_around before longer solid

theorem trimEnd_append {text : Text} (filled : ¬ text.AllBlank) (front : Text) : trimEnd (front ++ text) = front ++ text.trimEnd := by
  obtain ⟨blanks, blank, split⟩ := trimEnd_split text
  have some : text.trimEnd ≠ [] := fun empty => by
    rw [empty, List.nil_append] at split
    exact filled (split ▸ blank)
  have final : ∀ c ∈ (front ++ text.trimEnd).getLast?, isBlank c = false := by
    rw [List.getLast?_append_of_ne_nil _ some]
    exact trimEnd_last text
  conv_lhs => rw [split, ← List.append_assoc, trimEnd_blank blank, trimEnd_id final]

theorem trim_trimEnd (text : Text) : text.trimEnd.trim = text.trim := by
  obtain ⟨blanks, blank, split⟩ := trimEnd_split text
  conv_rhs => rw [split, trim_blank blank]

theorem blank_of_trim {text : Text} (empty : text.trim = []) : text.AllBlank := by
  obtain ⟨first, blanks, before, behind, split, -⟩ := trim_split text
  rw [split, empty, List.append_nil]
  exact fun c held => (List.mem_append.mp held).elim (before c) (behind c)

theorem blank_iff_trim {text : Text} : text.trim.isEmpty = true ↔ text.AllBlank := by
  rw [List.isEmpty_iff]
  constructor
  · exact blank_of_trim
  · exact fun blank => trim_blank blank []

theorem trim_holds {text : Text} {c : Char} (held : c ∈ text) (seen : isBlank c = false) : c ∈ text.trim := by
  obtain ⟨first, blanks, before, behind, split, -⟩ := trim_split text
  have visible {part : Text} (blank : part.AllBlank) : c ∉ part := fun found => by
    rw [blank c found] at seen
    cases seen
  rw [split, List.mem_append, List.mem_append] at held
  exact (held.resolve_right (visible behind)).resolve_left (visible before)

theorem trim_firm {text : Text} (firm : text.Firm) : ∃ blanks, blanks.AllBlank ∧ text = blanks ++ text.trim ∧ text.trim.Firm := by
  obtain ⟨front, c, shape, seen⟩ := firm
  obtain ⟨first, blanks, before, behind, split, -⟩ := trim_split text
  have last : text.getLast? = some c := by rw [shape, List.getLast?_concat]
  have some : text.trim ≠ [] := List.ne_nil_of_mem (trim_holds (List.mem_of_getLast? last) seen)
  have nothing : blanks = [] := by
    by_contra more
    rw [split, List.getLast?_append_of_ne_nil _ more] at last
    rw [behind c (List.mem_of_getLast? last)] at seen
    cases seen
  rw [nothing, List.append_nil] at split
  rw [split, List.getLast?_append_of_ne_nil _ some] at last
  obtain ⟨init, same⟩ := List.getLast?_eq_some_iff.mp last
  exact ⟨first, before, split, init, c, same, seen⟩

theorem trim_append {text tail : Text} (firm : text.Firm) (more : tail.Firm) : trim (text ++ tail) = text.trim ++ tail := by
  obtain ⟨blanks, blank, split, front, c, shape, seen⟩ := trim_firm firm
  obtain ⟨init, d, rfl, visible⟩ := more
  obtain ⟨-, -, -, -, -, solid⟩ := trim_split text
  have whole : Solid (text.trim ++ (init ++ [d])) := by
    constructor
    · rw [List.head?_append_of_ne_nil _ (by simp [shape])]
      exact solid.1
    · rw [← List.append_assoc, List.getLast?_concat]
      rintro e ⟨⟩
      exact visible
  have around := @trim_around blanks [] _ blank (fun c held => absurd held List.not_mem_nil) whole
  rw [List.append_nil, ← List.append_assoc, ← split] at around
  exact around

theorem lacks_blank_front {blanks mark : Text} (blank : blanks.AllBlank) (visible : mark.Visible) (text : Text) :
    Lacks (blanks ++ text) mark ↔ text.Lacks mark := by
  obtain ⟨m, rest, rfl⟩ := List.exists_cons_of_ne_nil visible.1
  refine ⟨fun whole => lacks_part whole (List.suffix_append blanks text).isInfix, fun lacks found => ?_⟩
  refine lacks (infix_behind ⟨m, rfl, fun held => ?_⟩ found)
  have seen := visible.2 m List.mem_cons_self
  rw [blank m held] at seen
  cases seen

theorem trim_lacks_iff {mark : Text} (visible : mark.Visible) (text : Text) : text.trim.Lacks mark ↔ text.Lacks mark := by
  refine ⟨fun lacks => ?_, fun whole => lacks_part whole (trim_inside text)⟩
  obtain ⟨first, blanks, before, behind, split, -⟩ := trim_split text
  rw [split, List.append_assoc, lacks_blank_front before visible]
  cases blanks with
  | nil => rwa [List.append_nil]
  | cons c blanks =>
      have outside : c ∉ mark := fun held => by
        have seen := visible.2 c held
        rw [behind c List.mem_cons_self] at seen
        cases seen
      have later : AllBlank blanks := fun d held => behind d (List.mem_cons_of_mem c held)
      have none : Lacks blanks mark := by
        simpa [lacks_nil visible.1] using lacks_blank_front later visible []
      exact (lacks_apart outside).mpr ⟨lacks, none⟩

end CodeFence.Text
