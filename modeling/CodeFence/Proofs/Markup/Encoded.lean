import CodeFence.Markup.Encoded
import CodeFence.Proofs.Text.Substitute

set_option autoImplicit false

namespace CodeFence

def Entity.markupSigns : Text := ['>', '<', '&', '\'', '"']

def Entity.markupTable : List Substitution :=
  Entity.markupSigns.map fun sign => (Entity.markup sign, [sign])

theorem markup_plain {c : Char} (plain : c ∉ Entity.markupSigns) : Entity.markup c = [c] := by
  simp only [Entity.markupSigns, List.mem_cons, List.not_mem_nil, or_false, not_or] at plain
  obtain ⟨greater, less, ampersand, apostrophe, quote⟩ := plain
  unfold Entity.markup
  split
  · exact absurd rfl greater
  · exact absurd rfl less
  · exact absurd rfl ampersand
  · exact absurd rfl apostrophe
  · exact absurd rfl quote
  · rfl

theorem substitute_markup {sign : Char} (member : sign ∈ Entity.markupSigns) (rest : Text) :
    Text.substitute Entity.markupTable (Entity.markup sign ++ rest) = sign :: Text.substitute Entity.markupTable rest := by
  simp only [Entity.markupSigns, List.mem_cons, List.not_mem_nil, or_false] at member
  rcases member with rfl | rfl | rfl | rfl | rfl
  · rfl
  · rfl
  · rfl
  · rfl
  · rfl

theorem substitute_markup_plain {c : Char} (plain : c ∉ Entity.markupSigns) (rest : Text) :
    Text.substitute Entity.markupTable (c :: rest) = c :: Text.substitute Entity.markupTable rest := by
  have starts : ∀ row ∈ Entity.markupTable, row.1.head? = some '&' := by decide
  have other : c ≠ '&' := by
    rintro rfl
    exact plain (by decide)
  exact Text.substitute_unmarked starts other rest

theorem escape_markup_read (text : Text) : text.escapeMarkup.substitute Entity.markupTable = text := by
  induction text with
  | nil => rfl
  | cons c text ih =>
      have split : Text.escapeMarkup (c :: text) = Entity.markup c ++ Text.escapeMarkup text := List.flatMap_cons
      rw [split]
      by_cases member : c ∈ Entity.markupSigns
      · rw [substitute_markup member, ih]
      · rw [markup_plain member, List.singleton_append, substitute_markup_plain member, ih]

namespace Encoded

theorem high_byte {n : Nat} (high : 128 ≤ n) (fits : n < 256) : 128 ≤ (UInt8.ofNat n).toNat := by
  rw [UInt8.toNat_ofNat_of_lt' fits]
  exact high

-- Every byte of an encoding of more than one byte has its highest bit set.
theorem byte_low {c : Char} {byte : UInt8} (held : byte ∈ String.utf8EncodeChar c) (low : byte.toNat < 128) :
    byte.toNat = c.toNat := by
  have long {bytes : List UInt8} (high : ∀ other ∈ bytes, 128 ≤ other.toNat) (member : byte ∈ bytes) : byte.toNat = c.toNat :=
    absurd low (Nat.not_lt_of_le (high byte member))
  have value : c.val.toNat = c.toNat := rfl
  unfold String.utf8EncodeChar at held
  simp only [value] at held
  split at held
  · rename_i single
    obtain rfl := List.mem_singleton.mp held
    exact UInt8.toNat_ofNat_of_lt' (Nat.lt_of_le_of_lt single (by decide))
  · split at held
    · refine long ?_ held
      simp only [List.forall_mem_cons, List.not_mem_nil, false_implies, implies_true, and_true]
      exact ⟨high_byte (by omega) (by omega), high_byte (by omega) (by omega)⟩
    · split at held
      · refine long ?_ held
        simp only [List.forall_mem_cons, List.not_mem_nil, false_implies, implies_true, and_true]
        exact ⟨high_byte (by omega) (by omega), high_byte (by omega) (by omega), high_byte (by omega) (by omega)⟩
      · refine long ?_ held
        simp only [List.forall_mem_cons, List.not_mem_nil, false_implies, implies_true, and_true]
        exact ⟨high_byte (by omega) (by omega), high_byte (by omega) (by omega), high_byte (by omega) (by omega),
          high_byte (by omega) (by omega)⟩

theorem entity_low {byte : UInt8} {chars : Text} (found : entity? byte = some chars) :
    byte.toNat < 128 ∧ Char.ofNat byte.toNat ∈ Entity.markupSigns := by
  revert found
  fun_cases entity? byte
  case case6 => simp
  all_goals
    intro _
    subst_vars
    decide

theorem entity_plain {c : Char} (plain : c ∉ Entity.markupSigns) {byte : UInt8} (held : byte ∈ String.utf8EncodeChar c) :
    entity? byte = none := by
  cases found : entity? byte with
  | none => rfl
  | some chars =>
      obtain ⟨low, sign⟩ := entity_low found
      rw [byte_low held low, Char.ofNat_toNat] at sign
      exact absurd sign plain

theorem entity_sign {sign : Char} (member : sign ∈ Entity.markupSigns) :
    ∃ byte, String.utf8EncodeChar sign = [byte] ∧ entity? byte = some (Entity.markup sign) := by
  simp only [Entity.markupSigns, List.mem_cons, List.not_mem_nil, or_false] at member
  rcases member with rfl | rfl | rfl | rfl | rfl
  · exact ⟨0x3e, rfl, rfl⟩
  · exact ⟨0x3c, rfl, rfl⟩
  · exact ⟨0x26, rfl, rfl⟩
  · exact ⟨0x27, rfl, rfl⟩
  · exact ⟨0x22, rfl, rfl⟩

theorem parts_skip {run : List UInt8} (plain : ∀ byte ∈ run, entity? byte = none) (last offset : Nat) (rest : List UInt8) :
    parts last offset (run ++ rest) = parts last (offset + run.length) rest := by
  induction run generalizing offset with
  | nil => rfl
  | cons byte run ih =>
      obtain ⟨here, later⟩ := List.forall_mem_cons.mp plain
      rw [List.cons_append, parts, here, List.length_cons, Nat.add_comm run.length 1, ← Nat.add_assoc]
      exact ih later (offset + 1)

-- A part that can be taken from the encoded text: a slice between two characters, the first not behind the second.
def Part.Cuts (text : Text) : Part → Prop
  | slice first past => first ≤ past ∧ Boundary text first ∧ Boundary text past
  | entity _ => True

structure Writes (text : Text) (made : List Part) (output : Text) : Prop where
  cuts : ∀ part ∈ made, part.Cuts text
  bytes : made.flatMap (Part.bytes text.encoded) = output.encoded

variable {text output : Text} {made : List Part}

theorem encoded_length_append (a b : Text) : (a ++ b).encoded.length = a.encoded.length + b.encoded.length := by
  rw [Text.encoded_append, List.length_append]

theorem writes_nothing (text : Text) (empty : output.encoded = []) : Writes text [] output where
  cuts := List.forall_mem_nil _
  bytes := empty.symm

theorem writes_entity (chars : Text) (rest : Writes text made output) : Writes text (.entity chars :: made) (chars ++ output) where
  cuts := List.forall_mem_cons.mpr ⟨trivial, rest.cuts⟩
  bytes := by
    rw [List.flatMap_cons, rest.bytes, Text.encoded_append]
    rfl

theorem writes_slice {before run behind : Text} (split : text = before ++ run ++ behind) (rest : Writes text made output) :
    Writes text (.slice before.encoded.length (before ++ run).encoded.length :: made) (run ++ output) where
  cuts := by
    have first : Boundary text before.encoded.length := ⟨before, run ++ behind, by rw [split, List.append_assoc], rfl⟩
    have past : Boundary text (before ++ run).encoded.length := ⟨before ++ run, behind, split, rfl⟩
    have ordered : before.encoded.length ≤ (before ++ run).encoded.length := by
      rw [encoded_length_append]
      exact Nat.le_add_right _ _
    exact List.forall_mem_cons.mpr ⟨⟨ordered, first, past⟩, rest.cuts⟩
  bytes := by
    have whole : text.encoded = before.encoded ++ (run.encoded ++ behind.encoded) := by
      rw [split, List.append_assoc, Text.encoded_append, Text.encoded_append]
    have cut : Part.bytes text.encoded (.slice before.encoded.length (before ++ run).encoded.length) = run.encoded := by
      rw [Part.bytes, whole, encoded_length_append, List.drop_left, Nat.add_sub_cancel_left, List.take_left]
    rw [List.flatMap_cons, rest.bytes, cut, Text.encoded_append]

-- The run that is still to be cut needs no escape; it ends where the loop is.
theorem parts_write {before run behind : Text} (plain : ∀ c ∈ run, c ∉ Entity.markupSigns) (split : text = before ++ run ++ behind) :
    Writes text (parts before.encoded.length (before ++ run).encoded.length behind.encoded) (run ++ behind.escapeMarkup) := by
  induction behind generalizing before run with
  | nil =>
      by_cases filled : before.encoded.length < (before ++ run).encoded.length
      · have ended : parts before.encoded.length (before ++ run).encoded.length (Text.encoded []) =
            [.slice before.encoded.length (before ++ run).encoded.length] := if_pos filled
        rw [ended]
        exact writes_slice split (writes_nothing text rfl)
      · have ended : parts before.encoded.length (before ++ run).encoded.length (Text.encoded []) = [] := if_neg filled
        have empty : (run ++ Text.escapeMarkup []).encoded = [] := by
          rw [encoded_length_append] at filled
          have none : run.encoded = [] := List.length_eq_zero_iff.mp (by omega)
          rw [Text.encoded_append, none]
          rfl
        rw [ended]
        exact writes_nothing text empty
  | cons c behind ih =>
      have encoded : Text.encoded (c :: behind) = String.utf8EncodeChar c ++ Text.encoded behind := List.flatMap_cons
      have escaped : Text.escapeMarkup (c :: behind) = Entity.markup c ++ Text.escapeMarkup behind := List.flatMap_cons
      by_cases sign : c ∈ Entity.markupSigns
      · obtain ⟨byte, single, entity⟩ := entity_sign sign
        have next : (before ++ run ++ [c]).encoded.length = (before ++ run).encoded.length + 1 := by
          have one : Text.encoded [c] = [byte] := by rw [Text.encoded, List.flatMap_singleton, single]
          rw [encoded_length_append, one, List.length_singleton]
        have rest := @ih (before ++ run ++ [c]) [] (List.forall_mem_nil _) (by rw [split, List.append_nil, List.append_cons])
        rw [List.append_nil, next, List.nil_append] at rest
        rw [encoded, escaped, single, List.singleton_append, parts, entity]
        exact writes_slice split (writes_entity _ rest)
      · have longer : ∀ d ∈ run ++ [c], d ∉ Entity.markupSigns :=
          List.forall_mem_append.mpr ⟨plain, List.forall_mem_singleton.mpr sign⟩
        have next : (before ++ (run ++ [c])).encoded.length = (before ++ run).encoded.length + (String.utf8EncodeChar c).length := by
          rw [← List.append_assoc, encoded_length_append, Text.encoded, Text.encoded, List.flatMap_singleton]
        have rest := @ih before (run ++ [c]) longer (by rw [split, List.append_cons, List.append_assoc before])
        rw [next, List.append_assoc] at rest
        rw [encoded, escaped, parts_skip (fun byte held => entity_plain sign held), markup_plain sign]
        exact rest

theorem escape_sliced (text : Text) :
    escape text.encoded = text.escapeMarkup.encoded ∧
      (∀ first past, .slice first past ∈ parts 0 0 text.encoded → first ≤ past ∧ Boundary text first ∧ Boundary text past) ∧
      text.escapeMarkup.substitute Entity.markupTable = text := by
  have written := @parts_write text [] [] text (List.forall_mem_nil _) rfl
  exact ⟨written.bytes, fun first past member => written.cuts _ member, escape_markup_read text⟩

end Encoded
end CodeFence
