import CodeFence.Text.Basic

set_option autoImplicit false

namespace CodeFence

abbrev Substitution := Text × Text

namespace Text

def row? (table : List Substitution) (text : Text) : Option Substitution :=
  table.find? fun row => (strip? row.1 text).isSome

-- Substitutes in the text behind its first `skip` characters. Marks are taken not to be empty.
def substituteFrom (table : List Substitution) : (skip : Nat) → Text → Text
  | _, [] => []
  | skip + 1, _ :: rest => substituteFrom table skip rest
  | 0, c :: rest =>
      match row? table (c :: rest) with
      | some row => row.2 ++ substituteFrom table (row.1.length - 1) rest
      | none => c :: substituteFrom table 0 rest

def substitute (table : List Substitution) (text : Text) : Text :=
  substituteFrom table 0 text

theorem substituteFrom_drop (table : List Substitution) (skip : Nat) (text : Text) :
    substituteFrom table skip text = substitute table (text.drop skip) := by
  induction text generalizing skip with
  | nil => cases skip <;> simp [substitute, substituteFrom]
  | cons c rest ih =>
      cases skip with
      | zero => rfl
      | succ skip => simpa [substituteFrom] using ih skip

theorem substitute_kept {table : List Substitution} {c : Char} {rest : Text} (absent : row? table (c :: rest) = none) :
    substitute table (c :: rest) = c :: substitute table rest := by
  simp only [substitute, substituteFrom, absent]

theorem substitute_replaced {table : List Substitution} {row : Substitution} {c : Char} {rest : Text}
    (found : row? table (c :: rest) = some row) (marked : row.1 ≠ []) :
    substitute table (c :: rest) = row.2 ++ substitute table ((c :: rest).drop row.1.length) := by
  obtain ⟨m, mark, shape⟩ := List.exists_cons_of_ne_nil marked
  have unfolded : substitute table (c :: rest) = row.2 ++ substituteFrom table (row.1.length - 1) rest := by
    simp only [substitute, substituteFrom, found]
  simp only [unfolded, substituteFrom_drop, shape, List.length_cons, Nat.add_sub_cancel, List.drop_succ_cons]

end Text
end CodeFence
