import CodeFence.Json.Writer
import CodeFence.Proofs.Json.Reader

set_option autoImplicit false

namespace CodeFence.Json

inductive Proper : Json → Prop
  | null : Proper .null
  | bool (b : Bool) : Proper (.bool b)
  | number {spelling : Text} (spelled : NumberSpelled spelling) : Proper (.number spelling)
  | string (chars : Option Text) : Proper (.string chars)
  | array {items : List Json} (each : ∀ item ∈ items, Proper item) : Proper (.array items)
  | object {members : List (Option Text × Json)} (each : ∀ member ∈ members, Proper member.2) : Proper (.object members)

-- The unit a character is written as: its number only when it is a control character of no letter.
def unit (c : Char) : Unit16 :=
  if c.toNat < 0x20 ∧ c ∉ ['\x08', '\x0c', '\n', '\r', '\t'] then .code c.toNat else .char c

theorem hexNumber_lowerHex : ∀ n < 0x20, hexNumber? ['0', '0', lowerHex (n / 16), lowerHex (n % 16)] = some n := by
  decide

theorem escape_spelled (c : Char) {parts : List Unit16} {inner : Text} (spelled : UnitsSpelled parts inner) :
    UnitsSpelled (unit c :: parts) (escape c ++ inner) := by
  fun_cases escape c
  case case1 | case2 | case3 | case4 | case5 | case6 | case7 => exact .short rfl spelled
  case case8 quote slash back feed line carriage tab control =>
    have lettered : c ∉ ['\x08', '\x0c', '\n', '\r', '\t'] := by simpa using ⟨back, feed, line, carriage, tab⟩
    rw [unit, if_pos ⟨control, lettered⟩]
    exact .code (hexNumber_lowerHex c.toNat control) spelled
  case case9 quote slash back feed line carriage tab shown =>
    rw [unit, if_neg fun control => shown control.1]
    exact .plain (by omega) quote slash spelled

theorem chars_spelled (chars : Text) : UnitsSpelled (chars.map unit) (chars.flatMap escape) := by
  induction chars with
  | nil => exact .none
  | cons c chars ih => exact escape_spelled c ih

theorem assemble_code {n : Nat} (low : n < 0xd800) (parts : List Unit16) :
    assemble (.code n :: parts) = (assemble parts).map (Char.ofNat n :: ·) := by
  have unpaired : highSurrogate n = false ∧ lowSurrogate n = false := by
    simp only [highSurrogate, lowSurrogate]
    constructor <;> simp <;> omega
  cases parts with
  | nil => simp [assemble, unpaired]
  | cons part parts => cases part <;> simp [assemble, unpaired]

theorem assemble_units (chars : Text) : assemble (chars.map unit) = some chars := by
  induction chars with
  | nil => rfl
  | cons c chars ih =>
      by_cases control : c.toNat < 0x20 ∧ c ∉ ['\x08', '\x0c', '\n', '\r', '\t']
      · simp only [List.map_cons, unit, if_pos control]
        rw [assemble_code (by omega), ih]
        simp
      · simp only [List.map_cons, unit, if_neg control, assemble, ih, Option.map_some]

theorem writeString_units (chars : Option Text) :
    ∃ parts inner, UnitsSpelled parts inner ∧ assemble parts = chars ∧ writeString chars = '"' :: inner ++ ['"'] := by
  cases chars with
  | none => exact ⟨[.code 0xd800], "\\ud800".toList, .code rfl .none, rfl, rfl⟩
  | some chars => exact ⟨chars.map unit, chars.flatMap escape, chars_spelled chars, assemble_units chars, rfl⟩

theorem blank_nil : Blank [] := by
  simp [Blank]

theorem Spelled.padded {json : Json} {text : Text} (spelled : Spelled json text) : Padded json text := by
  simpa using Padded.gaps blank_nil spelled blank_nil

theorem writeItems_spelled {items : List Json} (filled : items ≠ []) (each : ∀ item ∈ items, Spelled item item.text) :
    ItemsSpelled items (writeItems items) := by
  induction items with
  | nil => exact absurd rfl filled
  | cons item items ih =>
      have first := (each item (by simp)).padded
      cases items with
      | nil => simpa [writeItems] using ItemsSpelled.last first
      | cons next items =>
          have others := ih (by simp) fun item known => each item (by simp [known])
          simpa [writeItems] using ItemsSpelled.more first others

theorem writeMember_spelled (name : Option Text) {value : Json} {text : Text} (spelled : Spelled value text) :
    MemberSpelled (name, value) (writeString name ++ ':' :: text) := by
  obtain ⟨parts, inner, named, rfl, written⟩ := writeString_units name
  simpa [written] using MemberSpelled.named blank_nil named blank_nil spelled.padded

theorem writeMembers_spelled {members : List (Option Text × Json)} (filled : members ≠ [])
    (each : ∀ member ∈ members, Spelled member.2 member.2.text) : MembersSpelled members (writeMembers members) := by
  induction members with
  | nil => exact absurd rfl filled
  | cons member members ih =>
      obtain ⟨name, value⟩ := member
      have first := writeMember_spelled name (each (name, value) (by simp))
      cases members with
      | nil => simpa [writeMembers] using MembersSpelled.last first
      | cons next members =>
          have others := ih (by simp) fun member known => each member (by simp [known])
          simpa [writeMembers] using MembersSpelled.more first others

theorem text_spelled {json : Json} (proper : Proper json) : Spelled json json.text := by
  induction proper with
  | null =>
      have known : ("null".toList, Json.null) ∈ words := by simp [words]
      exact .word known
  | bool b =>
      cases b with
      | true =>
          have known : ("true".toList, Json.bool true) ∈ words := by simp [words]
          exact .word known
      | false =>
          have known : ("false".toList, Json.bool false) ∈ words := by simp [words]
          exact .word known
  | number spelled => exact .number spelled
  | string chars =>
      obtain ⟨parts, inner, spelled, rfl, written⟩ := writeString_units chars
      have shown : (Json.string (assemble parts)).text = '"' :: inner ++ ['"'] := written
      rw [shown]
      exact .string spelled
  | array each ih =>
      rename_i items
      by_cases filled : items = []
      · subst filled
        exact .emptyArray blank_nil
      · exact .array (writeItems_spelled filled ih)
  | object each ih =>
      rename_i members
      by_cases filled : members = []
      · subst filled
        exact .emptyObject blank_nil
      · exact .object (writeMembers_spelled filled ih)

theorem parse_text {json : Json} (proper : Proper json) : parse? json.text = some json :=
  parse_spelled (text_spelled proper).padded

end CodeFence.Json
