import CodeFence.Proofs.Text.Lacks

set_option autoImplicit false

namespace CodeFence.Text

-- The number of places where the mark stands. Marks are taken not to be empty.
def occurrences (mark : Text) : Text → Nat
  | [] => 0
  | c :: rest => (if mark <+: c :: rest then 1 else 0) + occurrences mark rest

theorem occurrences_lacking {mark text : Text} (lacks : text.Lacks mark) : occurrences mark text = 0 := by
  induction text with
  | nil => rfl
  | cons c rest ih =>
      have absent : ¬ mark <+: c :: rest := fun found => lacks found.isInfix
      have later := ih (lacks_part lacks (List.suffix_cons c rest).isInfix)
      simp only [occurrences, if_neg absent, later]

theorem occurrences_append (mark a b : Text) : occurrences mark a + occurrences mark b ≤ occurrences mark (a ++ b) := by
  induction a with
  | nil => simp [occurrences]
  | cons c a ih =>
      by_cases here : mark <+: c :: a
      · have longer : mark <+: c :: (a ++ b) := here.trans (List.prefix_append (c :: a) b)
        simp only [List.cons_append, occurrences, if_pos here, if_pos longer]
        omega
      · simp only [List.cons_append, occurrences, if_neg here]
        omega

theorem occurrences_part {part text : Text} (mark : Text) (inside : part <:+: text) :
    occurrences mark part ≤ occurrences mark text := by
  obtain ⟨before, behind, rfl⟩ := inside
  have front := occurrences_append mark before part
  have whole := occurrences_append mark (before ++ part) behind
  omega

theorem occurrences_apart {mark : Text} {c : Char} (outside : c ∉ mark) (marked : mark ≠ []) (before behind : Text) :
    occurrences mark (before ++ c :: behind) = occurrences mark before + occurrences mark behind := by
  induction before with
  | nil =>
      have absent : ¬ mark <+: c :: behind := by
        intro found
        have empty : mark <+: [] := prefix_apart outside found
        exact marked (List.prefix_nil.mp empty)
      simp [occurrences, absent]
  | cons d before ih =>
      have same : mark <+: d :: (before ++ c :: behind) ↔ mark <+: d :: before := by
        constructor
        · exact fun found => @prefix_apart mark (d :: before) behind c outside found
        · exact fun found => found.trans (List.prefix_append (d :: before) (c :: behind))
      simp only [List.cons_append, occurrences, same, ih, Nat.add_assoc]

theorem occurrences_behind {m : Char} {mark front : Text} (absent : m ∉ front) (behind : Text) :
    occurrences (m :: mark) (front ++ behind) = occurrences (m :: mark) behind := by
  induction front with
  | nil => rfl
  | cons c front ih =>
      have later : m ∉ front := fun held => absent (List.mem_cons_of_mem c held)
      have other : ¬ m :: mark <+: c :: (front ++ behind) := by
        intro found
        have same : m = c := (List.cons_prefix_cons.mp found).1
        exact absent (same ▸ List.mem_cons_self)
      simp only [List.cons_append, occurrences, if_neg other, ih later, Nat.zero_add]

theorem occurrences_seam {m : Char} {mark : Text} (once : m ∉ mark) (a b : Text) :
    occurrences (m :: mark) (a ++ b) ≤ occurrences (m :: mark) a + occurrences (m :: mark) b + 1 := by
  induction a with
  | nil => simp [occurrences]
  | cons c a ih =>
      by_cases here : m :: mark <+: c :: a
      · have longer : m :: mark <+: c :: (a ++ b) := here.trans (List.prefix_append (c :: a) b)
        simp only [List.cons_append, occurrences, if_pos here, if_pos longer]
        omega
      · by_cases across : m :: mark <+: c :: (a ++ b)
        · -- The mark runs over the seam, so what is left before the seam is inside it.
          have short : c :: a <+: m :: mark := by
            have either := List.prefix_or_prefix_of_prefix across (List.prefix_append (c :: a) b)
            exact either.resolve_left here
          have inside : a <+: mark := (List.cons_prefix_cons.mp short).2
          have absent : m ∉ a := fun held => once (inside.subset held)
          simp only [List.cons_append, occurrences, if_pos across, if_neg here, occurrences_behind absent b]
          omega
        · simp only [List.cons_append, occurrences, if_neg across, if_neg here]
          omega

theorem flatMap_count {write : Char → Text} {x : Char} (same : ∀ c, (write c).count x = [c].count x) (text : Text) :
    (text.flatMap write).count x = text.count x := by
  induction text with
  | nil => rfl
  | cons c rest ih =>
      have split : (c :: rest).count x = [c].count x + rest.count x := @List.count_append Char _ x [c] rest
      rw [List.flatMap_cons, List.count_append, same, ih, split]

theorem count_framed {x : Char} {front middle last : Text} (first : x ∉ front) (second : x ∉ middle) (third : x ∉ last)
    (a b : Text) : (front ++ a ++ middle ++ b ++ last).count x = a.count x + b.count x := by
  simp only [List.count_append, List.count_eq_zero.mpr first, List.count_eq_zero.mpr second, List.count_eq_zero.mpr third]
  omega

end CodeFence.Text
