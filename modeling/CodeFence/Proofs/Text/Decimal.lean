import CodeFence.Text.Decimal

set_option autoImplicit false

namespace CodeFence

structure Numeral (text : Text) (n : Nat) : Prop where
  filled : text ≠ []
  digits : ∀ c ∈ text, c.isDigit = true
  value : Nat.ofDigitChars 10 text 0 = n
  fits : n ≤ wordMax

theorem digit_bounds {c : Char} : c.isDigit = true ↔ '0'.toNat ≤ c.toNat ∧ c.toNat ≤ '9'.toNat := by
  rw [Char.isDigit, Bool.and_eq_true, decide_eq_true_eq, decide_eq_true_eq]
  exact Iff.rfl

theorem numeralFrom_iff {text : Text} {high n : Nat} :
    numeralFrom high text = some n ↔ (∀ c ∈ text, c.isDigit = true) ∧ Nat.ofDigitChars 10 text high = n := by
  induction text generalizing high with
  | nil => simp [numeralFrom]
  | cons c rest ih =>
      by_cases digit : c.isDigit = true
      · have read : digitValue? c = some (c.toNat - '0'.toNat) := if_pos (digit_bounds.mp digit)
        rw [numeralFrom, read, Option.bind_some, ih, Nat.ofDigitChars_cons, List.forall_mem_cons]
        simp only [digit, true_and]
      · have unread : digitValue? c = none := if_neg fun bounds => digit (digit_bounds.mpr bounds)
        rw [numeralFrom, unread, List.forall_mem_cons]
        simp [digit]

theorem numeral_iff {text : Text} {n : Nat} : numeral? text = some n ↔ Numeral text n := by
  cases text with
  | nil =>
      constructor
      · intro read
        cases read
      · intro numeral
        exact absurd rfl numeral.filled
  | cons c rest =>
      rw [numeral?, Option.filter_eq_some_iff, numeralFrom_iff, decide_eq_true_eq]
      constructor
      · intro read
        obtain ⟨⟨digits, value⟩, fits⟩ := read
        exact ⟨List.cons_ne_nil c rest, digits, value, fits⟩
      · intro numeral
        exact ⟨⟨numeral.digits, numeral.value⟩, numeral.fits⟩

theorem decimal_digits {n : Nat} {c : Char} (held : c ∈ decimal n) : c.isDigit = true :=
  Nat.isDigit_of_mem_toDigits (by decide) (by decide) held

theorem decimal_numeral {n : Nat} (fits : n ≤ wordMax) : Numeral (decimal n) n where
  filled := Nat.toDigits_ne_nil
  digits := fun _ => decimal_digits
  value := Nat.ofDigitChars_ten_toDigits
  fits := fits

end CodeFence
