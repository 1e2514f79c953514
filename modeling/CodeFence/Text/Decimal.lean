import CodeFence.Text.Basic

set_option autoImplicit false

namespace CodeFence

def decimal (n : Nat) : Text :=
  Nat.toDigits 10 n

def wordMax : Nat :=
  0xffffffffffffffff

def digitValue? (c : Char) : Option Nat :=
  if '0'.toNat ≤ c.toNat ∧ c.toNat ≤ '9'.toNat then some (c.toNat - '0'.toNat) else none

def numeralFrom (high : Nat) : Text → Option Nat
  | [] => some high
  | c :: rest => (digitValue? c).bind fun low => numeralFrom (10 * high + low) rest

-- The value of a numeral: one digit or more, leading zeros allowed, at most `wordMax`.
def numeral? : Text → Option Nat
  | [] => none
  | c :: rest => (numeralFrom 0 (c :: rest)).filter (· ≤ wordMax)

end CodeFence
