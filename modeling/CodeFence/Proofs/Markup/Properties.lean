import CodeFence.Markup.Properties
import Mathlib.Data.List.Nodup

set_option autoImplicit false

namespace CodeFence.Properties

variable {name other : Text} {value : Property} {properties : Properties}

theorem get_set (name other : Text) (value : Property) (properties : Properties) :
    (properties.set name value).get? other = if name = other then some value else properties.get? other := by
  induction properties with
  | nil => rfl
  | cons entry rest ih =>
      obtain ⟨key, old⟩ := entry
      by_cases here : key = name
      · subst here
        by_cases same : key = other <;> simp [set, get?, same]
      · by_cases found : key = other
        · subst found
          simp [set, get?, here, Ne.symm here]
        · simp [set, get?, here, found, ih]

theorem get_erase (apart : name ≠ other) (properties : Properties) : (properties.erase name).get? other = properties.get? other := by
  induction properties with
  | nil => rfl
  | cons entry rest ih =>
      obtain ⟨key, old⟩ := entry
      by_cases here : key = name
      · subst here
        simp [erase, get?, apart]
      · by_cases found : key = other
        · subst found
          simp [erase, get?, here]
        · simp [erase, get?, here, found, ih]

theorem erase_absent (absent : properties.get? name = none) : properties.erase name = properties := by
  induction properties with
  | nil => rfl
  | cons entry rest ih =>
      obtain ⟨key, old⟩ := entry
      by_cases here : key = name
      · simp [get?, here] at absent
      · simp only [get?, if_neg here] at absent
        simp [erase, here, ih absent]

theorem erase_set (absent : properties.get? name = none) (value : Property) :
    (properties.set name value).erase name = properties := by
  induction properties with
  | nil => simp [set, erase]
  | cons entry rest ih =>
      obtain ⟨key, old⟩ := entry
      by_cases here : key = name
      · simp [get?, here] at absent
      · simp only [get?, if_neg here] at absent
        simp [set, erase, here, ih absent]

theorem names_cons (entry : Text × Property) (rest : Properties) : names (entry :: rest) = entry.1 :: names rest := rfl

theorem absent_iff : properties.get? name = none ↔ name ∉ properties.names := by
  induction properties with
  | nil => simp [get?, names]
  | cons entry rest ih =>
      rw [names_cons, List.mem_cons, not_or, ← ih]
      by_cases here : entry.1 = name
      · simp [get?, here]
      · simp [get?, here, Ne.symm here]

theorem erase_names (name : Text) (properties : Properties) : (properties.erase name).names = properties.names.erase name := by
  induction properties with
  | nil => rfl
  | cons entry rest ih =>
      by_cases here : entry.1 = name
      · rw [erase, if_pos here, names_cons, here, List.erase_cons_head]
      · rw [erase, if_neg here, names_cons, names_cons, ih, List.erase_cons_tail (by simpa using here)]

-- A new name comes last; a name that is there keeps its place.
theorem set_names (name : Text) (value : Property) (properties : Properties) :
    (properties.set name value).names = if name ∈ properties.names then properties.names else properties.names ++ [name] := by
  induction properties with
  | nil => rfl
  | cons entry rest ih =>
      by_cases here : entry.1 = name
      · simp [set, here, names]
      · rw [set, if_neg here, names_cons, names_cons, ih]
        by_cases held : name ∈ names rest
        · simp [held]
        · simp [held, Ne.symm here]

theorem erase_distinct (distinct : properties.names.Nodup) (name : Text) : (properties.erase name).names.Nodup := by
  rw [erase_names]
  exact distinct.erase name

theorem erase_gone (distinct : properties.names.Nodup) (name : Text) : name ∉ (properties.erase name).names := by
  rw [erase_names]
  exact distinct.not_mem_erase

theorem set_distinct (distinct : properties.names.Nodup) (name : Text) (value : Property) :
    (properties.set name value).names.Nodup := by
  rw [set_names]
  by_cases held : name ∈ properties.names
  · rwa [if_pos held]
  · rw [if_neg held, ← List.concat_eq_append]
    exact distinct.concat held

def besides (names : List Text) (properties : Properties) : Properties :=
  properties.filter fun entry => entry.1 ∉ names

theorem besides_cons (names : List Text) (entry : Text × Property) (rest : Properties) :
    besides names (entry :: rest) = if entry.1 ∈ names then besides names rest else entry :: besides names rest := by
  by_cases held : entry.1 ∈ names
  · rw [if_pos held, besides, List.filter_cons_of_neg (by simpa using held)]
    rfl
  · rw [if_neg held, besides, List.filter_cons_of_pos (by simpa using held)]
    rfl

variable {names : List Text}

theorem besides_set (held : name ∈ names) (value : Property) (properties : Properties) :
    (properties.set name value).besides names = properties.besides names := by
  induction properties with
  | nil => rw [set, besides_cons, if_pos held]
  | cons entry rest ih =>
      by_cases here : entry.1 = name
      · rw [set, if_pos here, besides_cons, besides_cons]
        simp only [here, if_pos held]
      · rw [set, if_neg here, besides_cons, besides_cons, ih]

theorem besides_erase (held : name ∈ names) (properties : Properties) :
    (properties.erase name).besides names = properties.besides names := by
  induction properties with
  | nil => rfl
  | cons entry rest ih =>
      by_cases here : entry.1 = name
      · rw [erase, if_pos here, besides_cons, if_pos (here ▸ held)]
      · rw [erase, if_neg here, besides_cons, besides_cons, ih]

theorem besides_gone (held : name ∈ names) (properties : Properties) : name ∉ (properties.besides names).names := by
  intro left
  obtain ⟨entry, member, rfl⟩ := List.mem_map.mp left
  have other := (List.mem_filter.mp member).2
  exact absurd held (by simpa using other)

theorem besides_besides (names more : List Text) (properties : Properties) :
    (properties.besides names).besides more = properties.besides (names ++ more) := by
  rw [besides, besides, besides, List.filter_filter]
  apply List.filter_congr
  intro entry _
  simp [Bool.and_comm]

theorem erase_besides (distinct : properties.names.Nodup) (name : Text) : properties.erase name = properties.besides [name] := by
  have gone := erase_gone distinct name
  rw [← besides_erase List.mem_cons_self, besides, List.filter_eq_self.mpr]
  intro entry member
  have named : entry.1 ∈ (properties.erase name).names := List.mem_map_of_mem member
  have other : entry.1 ≠ name := ne_of_mem_of_not_mem named gone
  simpa using other

end CodeFence.Properties
