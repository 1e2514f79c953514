import Mathlib.Data.List.DropRight
import Mathlib.Data.List.TakeDrop
import Mathlib.Data.Option.Basic
import CodeFence.Json.Reader

set_option autoImplicit false

namespace CodeFence.Json

def Blank (gap : Text) : Prop :=
  ∀ c ∈ gap, isSpace c = true

def Digits (digits : Text) : Prop :=
  digits ≠ [] ∧ ∀ c ∈ digits, c.isDigit = true

def Whole (whole : Text) : Prop :=
  Digits whole ∧ (whole.head? ≠ some '0' ∨ whole.length = 1)

inductive Fraction : Text → Prop
  | none : Fraction []
  | some {digits : Text} (spelled : Digits digits) : Fraction ('.' :: digits)

inductive Exponent : Text → Prop
  | none : Exponent []
  | some {mark : Char} {sign digits : Text} (marked : mark = 'e' ∨ mark = 'E')
      (signed : sign = [] ∨ sign = ['+'] ∨ sign = ['-']) (spelled : Digits digits) :
      Exponent (mark :: sign ++ digits)

inductive NumberSpelled : Text → Prop
  | parts {sign whole fraction exponent : Text} (signed : sign = [] ∨ sign = ['-']) (spelled : Whole whole)
      (fractional : Fraction fraction) (scaled : Exponent exponent) :
      NumberSpelled (sign ++ whole ++ fraction ++ exponent)

-- The units of a string with the texts between quotes that spell them.
inductive UnitsSpelled : List Unit16 → Text → Prop
  | none : UnitsSpelled [] []
  | plain {c : Char} {parts : List Unit16} {inner : Text} (shown : 0x20 ≤ c.toNat) (unquoted : c ≠ '"')
      (unescaped : c ≠ '\\') (spelled : UnitsSpelled parts inner) : UnitsSpelled (.char c :: parts) (c :: inner)
  | short {e c : Char} {parts : List Unit16} {inner : Text} (escaped : escaped? e = some c)
      (spelled : UnitsSpelled parts inner) : UnitsSpelled (.char c :: parts) ('\\' :: e :: inner)
  | code {first second third fourth : Char} {n : Nat} {parts : List Unit16} {inner : Text}
      (number : hexNumber? [first, second, third, fourth] = some n) (spelled : UnitsSpelled parts inner) :
      UnitsSpelled (.code n :: parts) ('\\' :: 'u' :: first :: second :: third :: fourth :: inner)

mutual
inductive Spelled : Json → Text → Prop
  | word {json : Json} {spelling : Text} (known : (spelling, json) ∈ words) : Spelled json spelling
  | number {spelling : Text} (spelled : NumberSpelled spelling) : Spelled (.number spelling) spelling
  | string {parts : List Unit16} {inner : Text} (spelled : UnitsSpelled parts inner) :
      Spelled (.string (assemble parts)) ('"' :: inner ++ ['"'])
  | emptyArray {gap : Text} (blank : Blank gap) : Spelled (.array []) ('[' :: gap ++ [']'])
  | array {items : List Json} {inner : Text} (spelled : ItemsSpelled items inner) :
      Spelled (.array items) ('[' :: inner ++ [']'])
  | emptyObject {gap : Text} (blank : Blank gap) : Spelled (.object []) ('\x7b' :: gap ++ ['\x7d'])
  | object {members : List (Option Text × Json)} {inner : Text} (spelled : MembersSpelled members inner) :
      Spelled (.object members) ('\x7b' :: inner ++ ['\x7d'])

inductive Padded : Json → Text → Prop
  | gaps {before text behind : Text} {json : Json} (front : Blank before) (spelled : Spelled json text)
      (back : Blank behind) : Padded json (before ++ text ++ behind)

inductive ItemsSpelled : List Json → Text → Prop
  | last {item : Json} {text : Text} (spelled : Padded item text) : ItemsSpelled [item] text
  | more {item : Json} {items : List Json} {text inner : Text} (spelled : Padded item text)
      (rest : ItemsSpelled items inner) : ItemsSpelled (item :: items) (text ++ ',' :: inner)

inductive MemberSpelled : Option Text × Json → Text → Prop
  | named {before inner behind text : Text} {parts : List Unit16} {json : Json} (front : Blank before)
      (name : UnitsSpelled parts inner) (back : Blank behind) (spelled : Padded json text) :
      MemberSpelled (assemble parts, json) (before ++ '"' :: inner ++ '"' :: behind ++ ':' :: text)

inductive MembersSpelled : List (Option Text × Json) → Text → Prop
  | last {member : Option Text × Json} {text : Text} (spelled : MemberSpelled member text) :
      MembersSpelled [member] text
  | more {member : Option Text × Json} {members : List (Option Text × Json)} {text inner : Text}
      (spelled : MemberSpelled member text) (rest : MembersSpelled members inner) :
      MembersSpelled (member :: members) (text ++ ',' :: inner)
end

def Closes (c : Char) : Prop :=
  isSpace c = true ∨ c = ',' ∨ c = ']' ∨ c = '\x7d'

def Ended (rest : Text) : Prop :=
  ∀ c ∈ rest.head?, Closes c

theorem Closes.not_digit {c : Char} (closes : Closes c) : c.isDigit = false := by
  rcases closes with space | rfl | rfl | rfl
  · simp only [isSpace, Bool.or_eq_true, beq_iff_eq] at space
    rcases space with ((rfl | rfl) | rfl) | rfl <;> decide
  all_goals decide

def Halts (rest : Text) : Prop :=
  ∀ c ∈ rest.head?, c.isDigit = false

theorem readDigits_spelled {digits rest : Text} (spelled : Digits digits) (halts : Halts rest) :
    readDigits (digits ++ rest) = some (digits, rest) := by
  have stopped : rest.takeWhile Char.isDigit = [] ∧ rest.dropWhile Char.isDigit = rest := by
    cases rest with
    | nil => exact ⟨rfl, rfl⟩
    | cons c rest => simp [halts c rfl]
  have split : (digits ++ rest).span Char.isDigit = (digits, rest) := by
    rw [List.span_eq_takeWhile_dropWhile, List.takeWhile_append_of_pos spelled.2,
      List.dropWhile_append_of_pos spelled.2, stopped.1, stopped.2, List.append_nil]
  rw [readDigits, split]
  cases digits with
  | nil => exact absurd rfl spelled.1
  | cons c digits => rfl

theorem readWhole_spelled {whole rest : Text} (spelled : Whole whole) (halts : Halts rest) :
    readWhole (whole ++ rest) = some (whole, rest) := by
  rw [readWhole, readDigits_spelled spelled.1 halts]
  simpa [Option.filter, imp_iff_not_or] using spelled.2

theorem readFraction_spelled {fraction rest : Text} (spelled : Fraction fraction) (halts : Halts rest)
    (unpointed : rest.head? ≠ some '.') : readFraction (fraction ++ rest) = some (fraction, rest) := by
  cases spelled with
  | none =>
      cases rest with
      | nil => rfl
      | cons c rest =>
          have other : c ≠ '.' := fun same => unpointed (by simp [same])
          simp [readFraction, other]
  | some spelled => simp [readFraction, readDigits_spelled spelled halts]

theorem readExponent_spelled {exponent rest : Text} (spelled : Exponent exponent) (ended : Ended rest) :
    readExponent (exponent ++ rest) = some (exponent, rest) := by
  have halts : Halts rest := fun c here => (ended c here).not_digit
  cases spelled with
  | none =>
      cases rest with
      | nil => rfl
      | cons c rest =>
          have other : ¬(c = 'e' ∨ c = 'E') := by
            rintro (rfl | rfl)
            all_goals exact absurd (ended _ rfl) (by simp [Closes, isSpace])
          simp [readExponent, other]
  | some marked signed spelled =>
      rename_i mark sign digits
      have unsigned : readSign (sign ++ (digits ++ rest)) = (sign, digits ++ rest) := by
        rcases signed with rfl | rfl | rfl
        · cases digits with
          | nil => exact absurd rfl spelled.1
          | cons c digits =>
              have digit := spelled.2 c (by simp)
              have plus : c ≠ '+' := by rintro rfl; exact absurd digit (by decide)
              have minus : c ≠ '-' := by rintro rfl; exact absurd digit (by decide)
              simp [readSign, plus, minus]
        · rfl
        · rfl
      simp [readExponent, marked, unsigned, readDigits_spelled spelled halts]

theorem Exponent.head {exponent rest : Text} (spelled : Exponent exponent) (ended : Ended rest) :
    ∀ c ∈ (exponent ++ rest).head?, (c = 'e' ∨ c = 'E') ∨ Closes c := by
  cases spelled with
  | none => exact fun c here => .inr (ended c here)
  | some marked signed spelled =>
      intro c here
      obtain rfl : _ = c := by simpa using here
      exact .inl marked

theorem readNumber_spelled {spelling rest : Text} (spelled : NumberSpelled spelling) (ended : Ended rest) :
    readNumber (spelling ++ rest) = some (spelling, rest) := by
  cases spelled with
  | parts signed spelled fractional scaled =>
      rename_i sign whole fraction exponent
      have scaledHalts : Halts (exponent ++ rest) := by
        intro c here
        rcases scaled.head ended c here with (rfl | rfl) | closes
        · decide
        · decide
        · exact closes.not_digit
      have unpointed : (exponent ++ rest).head? ≠ some '.' := by
        intro point
        rcases scaled.head ended '.' point with (same | same) | closes
        · exact absurd same (by decide)
        · exact absurd same (by decide)
        · exact absurd closes (by simp [Closes, isSpace])
      have halts : Halts (fraction ++ (exponent ++ rest)) := by
        cases fractional with
        | none => exact scaledHalts
        | some spelled => simp [Halts]
      have counted := readWhole_spelled spelled halts
      have pointed := readFraction_spelled fractional scaledHalts unpointed
      have raised := readExponent_spelled scaled ended
      rcases signed with rfl | rfl
      · cases whole with
        | nil => exact absurd rfl spelled.1.1
        | cons c whole =>
            have digit := spelled.1.2 c (by simp)
            have minus : c ≠ '-' := by rintro rfl; exact absurd digit (by decide)
            rw [List.cons_append] at counted
            simp [readNumber, minus, counted, pointed, raised]
      · simp [readNumber, counted, pointed, raised]

theorem units_spelled {parts : List Unit16} {inner : Text} (spelled : UnitsSpelled parts inner) (rest : Text) :
    units (inner ++ '"' :: rest) = some (parts, rest) := by
  induction spelled with
  | none => rfl
  | plain shown unquoted unescaped spelled ih => simp [units, ih, shown, unescaped]
  | short escaped spelled ih =>
      rename_i e c parts inner
      have named : e ≠ 'u' := by rintro rfl; simp [escaped?] at escaped
      simp [units, ih, escaped, named]
  | code number spelled ih => simp [units, ih, number]

theorem readString_spelled {parts : List Unit16} {inner : Text} (spelled : UnitsSpelled parts inner) (rest : Text) :
    readString (inner ++ '"' :: rest) = some (assemble parts, rest) := by
  rw [readString, units_spelled spelled, Option.map_some]

theorem skipSpace_blank {gap : Text} (blank : Blank gap) (rest : Text) : skipSpace (gap ++ rest) = skipSpace rest := by
  rw [skipSpace, List.dropWhile_append_of_pos blank, skipSpace]

theorem skipSpace_cons {c : Char} (solid : isSpace c = false) (rest : Text) : skipSpace (c :: rest) = c :: rest := by
  rw [skipSpace, List.dropWhile_cons_of_neg (by simp [solid])]

theorem skipSpace_idem (text : Text) : skipSpace (skipSpace text) = skipSpace text :=
  List.dropWhile_idempotent isSpace text

def Opens (c : Char) : Prop :=
  c ∈ ['"', '[', '\x7b', '-', 'n', 't', 'f'] ∨ c.isDigit = true

theorem Opens.solid {c : Char} (opens : Opens c) : isSpace c = false ∧ c ≠ ']' := by
  rcases opens with known | digit
  · simp only [List.mem_cons, List.not_mem_nil, or_false] at known
    rcases known with rfl | rfl | rfl | rfl | rfl | rfl | rfl
    all_goals exact ⟨rfl, by decide⟩
  · constructor
    · by_contra space
      simp only [isSpace, Bool.or_eq_true, beq_iff_eq, Bool.not_eq_false] at space
      rcases space with ((rfl | rfl) | rfl) | rfl
      all_goals exact absurd digit (by decide)
    · rintro rfl
      exact absurd digit (by decide)

theorem NumberSpelled.head {spelling : Text} (spelled : NumberSpelled spelling) :
    ∃ c tail, spelling = c :: tail ∧ (c = '-' ∨ c.isDigit = true) := by
  cases spelled with
  | parts signed spelled fractional scaled =>
      rename_i sign whole fraction exponent
      rcases signed with rfl | rfl
      · obtain ⟨c, tail, rfl⟩ := List.exists_cons_of_ne_nil spelled.1.1
        exact ⟨c, _, rfl, .inr (spelled.1.2 c (by simp))⟩
      · exact ⟨'-', _, rfl, .inl rfl⟩

theorem Spelled.head {json : Json} {text : Text} (spelled : Spelled json text) :
    ∃ c tail, text = c :: tail ∧ Opens c := by
  cases spelled with
  | word known =>
      simp only [words, List.mem_cons, List.not_mem_nil, or_false, Prod.mk.injEq] at known
      rcases known with ⟨rfl, rfl⟩ | ⟨rfl, rfl⟩ | ⟨rfl, rfl⟩
      · exact ⟨'n', "ull".toList, rfl, .inl (by simp)⟩
      · exact ⟨'t', "rue".toList, rfl, .inl (by simp)⟩
      · exact ⟨'f', "alse".toList, rfl, .inl (by simp)⟩
  | number spelled =>
      obtain ⟨c, tail, rfl, opens⟩ := spelled.head
      refine ⟨c, tail, rfl, opens.imp_left ?_⟩
      rintro rfl
      simp
  | string spelled => exact ⟨_, _, rfl, .inl (by simp)⟩
  | emptyArray blank => exact ⟨_, _, rfl, .inl (by simp)⟩
  | array spelled => exact ⟨_, _, rfl, .inl (by simp)⟩
  | emptyObject blank => exact ⟨_, _, rfl, .inl (by simp)⟩
  | object spelled => exact ⟨_, _, rfl, .inl (by simp)⟩

end CodeFence.Json
