import CodeFence.Proofs.Text.Trim

set_option autoImplicit false

namespace CodeFence.Text

def HasWord (text word : Text) : Prop :=
  ∃ before behind, text = before ++ word ++ behind ∧ (∀ c ∈ before.getLast?, isBlank c = true) ∧ ∀ c ∈ behind.head?, isBlank c = true

theorem words_break {c : Char} (blank : isBlank c = true) (before behind : Text) :
    words (before ++ c :: behind) = words before ++ words behind := by
  rw [words, List.splitOnP_append_cons before behind blank, List.filter_append]
  rfl

theorem words_single {word : Text} (visible : word.Visible) : words word = [word] := by
  have whole : word.splitOnP isBlank = [word] := List.splitOnP_eq_singleton visible.2
  rw [words, whole, List.filter_cons_of_pos (by simpa using visible.1), List.filter_nil]

theorem has_word_before {text word : Text} {c : Char} (blank : isBlank c = true) (inside : text.HasWord word) (more : Text) :
    HasWord (text ++ c :: more) word := by
  obtain ⟨before, behind, split, first, last⟩ := inside
  refine ⟨before, behind ++ c :: more, by simp [split], first, ?_⟩
  cases behind with
  | nil => simpa using blank
  | cons d behind => simpa using last

theorem has_word_behind {text word : Text} {c : Char} (blank : isBlank c = true) (inside : text.HasWord word) (more : Text) :
    HasWord (more ++ c :: text) word := by
  obtain ⟨before, behind, split, first, last⟩ := inside
  refine ⟨more ++ c :: before, behind, by simp [split], ?_, last⟩
  cases before with
  | nil => simpa using blank
  | cons d before =>
      rw [List.append_cons, List.getLast?_append_of_ne_nil _ (List.cons_ne_nil d before)]
      exact first

theorem mem_words_iff {text word : Text} : word ∈ text.words ↔ word.Visible ∧ text.HasWord word := by
  constructor
  · -- A blank cuts the text in two shorter ones.
    intro member
    by_cases blank : ∃ c ∈ text, isBlank c = true
    · obtain ⟨c, held, blank⟩ := blank
      obtain ⟨before, behind, rfl⟩ := List.append_of_mem held
      rw [words_break blank] at member
      rcases List.mem_append.mp member with first | last
      · obtain ⟨visible, inside⟩ := mem_words_iff.mp first
        exact ⟨visible, has_word_before blank inside behind⟩
      · obtain ⟨visible, inside⟩ := mem_words_iff.mp last
        exact ⟨visible, has_word_behind blank inside before⟩
    · have seen : ∀ c ∈ text, isBlank c = false := by simpa using blank
      by_cases empty : text = []
      · rw [empty] at member
        cases member
      · rw [words_single ⟨empty, seen⟩, List.mem_singleton] at member
        subst member
        exact ⟨⟨empty, seen⟩, [], [], by simp, by simp, by simp⟩
  · rintro ⟨visible, before, behind, rfl, first, last⟩
    have held : word ∈ words (word ++ behind) := by
      cases behind with
      | nil => simp [words_single visible]
      | cons c behind =>
          rw [words_break (last c rfl), words_single visible]
          exact List.mem_append_left _ List.mem_cons_self
    rcases List.eq_nil_or_concat before with rfl | ⟨front, c, rfl⟩
    · exact held
    · have blank := first c (by simp)
      rw [List.concat_eq_append, List.append_assoc, List.append_assoc, List.singleton_append, words_break blank]
      exact List.mem_append_right _ held
termination_by text.length

end CodeFence.Text
