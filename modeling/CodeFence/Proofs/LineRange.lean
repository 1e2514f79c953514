import CodeFence.LineRange
import CodeFence.Proofs.Text.Decimal
import CodeFence.Proofs.Text.Trim

set_option autoImplicit false

namespace CodeFence.LineRange

def isSign (c : Char) : Bool :=
  c.isDigit || c == '-'

def Proper (range : LineRange) : Prop :=
  range.first ≤ range.last ∧ range.last ≤ wordMax

instance (range : LineRange) : Decidable range.Proper :=
  inferInstanceAs (Decidable (range.first ≤ range.last ∧ range.last ≤ wordMax))

theorem digit_sign {c : Char} (digit : c.isDigit = true) : isSign c = true := by
  rw [isSign, digit, Bool.true_or]

theorem sign_seen {c : Char} (sign : isSign c = true) : isBlank c = false := by
  rcases Bool.or_eq_true_iff.mp sign with digit | hyphen
  · have bounds := digit_bounds.mp digit
    simp only [isBlank, blankRuns, List.any_cons, List.any_nil, Bool.or_false, Bool.or_eq_false_iff, Bool.and_eq_false_iff,
      decide_eq_false_iff_not]
    simp only [Char.reduceToNat] at bounds
    omega
  · rw [beq_iff_eq.mp hyphen]
    decide

theorem signs_filter (piece : Text) : signs piece = piece.filter isSign := by
  have silent {blanks : Text} (blank : blanks.AllBlank) : blanks.filter isSign = [] := by
    apply List.filter_eq_nil_iff.mpr
    intro c held sign
    have seen := sign_seen sign
    rw [blank c held] at seen
    cases seen
  obtain ⟨first, last, before, behind, split, -⟩ := Text.trim_split piece
  conv_rhs => rw [split, List.filter_append, List.filter_append, silent before, silent behind, List.append_nil, List.nil_append]
  rfl

theorem split_filter (spec : Text) :
    (spec.splitOn ',').map (List.filter isSign) = (spec.filter fun c => isSign c || c == ',').splitOn ',' := by
  induction spec with
  | nil => rfl
  | cons c spec ih =>
      obtain ⟨first, rest, pieces⟩ := List.exists_cons_of_ne_nil (List.splitOn_ne_nil ',' spec)
      rw [List.splitOn_cons_eq_if_modifyHead, pieces]
      rw [pieces] at ih
      by_cases comma : c = ','
      · subst comma
        rw [List.filter_cons_of_pos (by decide), List.splitOn_cons_eq_if_modifyHead, ← ih]
        rfl
      · have other : (c == ',') = false := beq_eq_false_iff_ne.mpr comma
        rw [other]
        by_cases signed : isSign c = true
        · rw [List.filter_cons_of_pos (by simp [signed]), List.splitOn_cons_eq_if_modifyHead, other, ← ih]
          simp [signed]
        · rw [List.filter_cons_of_neg (by simp [signed, comma]), ← ih]
          simp [signed]

def piece? (piece : Text) : Option LineRange :=
  (parse? (piece.filter isSign)).filter nonempty

theorem parse_list_pieces (spec : Text) : parseList spec = (spec.splitOn ',').filterMap piece? :=
  List.filterMap_congr fun piece _ => congrArg (fun text => (parse? text).filter nonempty) (signs_filter piece)

theorem piece_filter (piece : Text) : piece? (piece.filter isSign) = piece? piece := by
  rw [piece?, List.filter_filter]
  simp [piece?]

theorem parse_list_congr {spec other : Text}
    (same : (spec.filter fun c => isSign c || c == ',') = other.filter fun c => isSign c || c == ',') :
    parseList spec = parseList other := by
  have read (text : Text) : parseList text = ((text.filter fun c => isSign c || c == ',').splitOn ',').filterMap piece? := by
    rw [parse_list_pieces, ← split_filter, List.filterMap_map]
    exact List.filterMap_congr fun piece _ => (piece_filter piece).symm
  rw [read, read, same]

-- What digits and hyphens denote: a line, or two lines in order. Whatever stands behind a second hyphen is not read.
inductive Denotes : Text → LineRange → Prop
  | line {text : Text} {n : Nat} : Numeral text n → Denotes text ⟨n, n⟩
  | pair {first last : Text} {low high : Nat} : Numeral first low → Numeral last high → low ≤ high →
      Denotes (first ++ '-' :: last) ⟨low, high⟩
  | trailed {first last : Text} {low high : Nat} (rest : Text) : Numeral first low → Numeral last high → low ≤ high →
      Denotes (first ++ '-' :: last ++ '-' :: rest) ⟨low, high⟩

inductive Lists : List Text → List LineRange → Prop
  | nil : Lists [] []
  | counted {piece : Text} {range : LineRange} {pieces : List Text} {ranges : List LineRange} :
      Denotes (piece.filter isSign) range → Lists pieces ranges → Lists (piece :: pieces) (range :: ranges)
  | silent {piece : Text} {pieces : List Text} {ranges : List LineRange} :
      (∀ range, ¬ Denotes (piece.filter isSign) range) → Lists pieces ranges → Lists (piece :: pieces) ranges

theorem numeral_unsplit {text : Text} {n : Nat} (numeral : Numeral text n) : text.splitOn '-' = [text] := by
  apply List.splitOn_eq_singleton
  intro held
  exact absurd (numeral.digits '-' held) (by decide)

theorem parse_pair {text first last : Text} {rest : List Text} {low high : Nat} (split : text.splitOn '-' = first :: last :: rest)
    (lower : Numeral first low) (upper : Numeral last high) : parse? text = some ⟨low, high⟩ := by
  simp only [parse?, split, numeral_iff.mpr lower, numeral_iff.mpr upper, Option.bind_some, Option.map_some]

theorem denotes_parse {text : Text} {range : LineRange} (denoted : Denotes text range) : parse? text = some range ∧ range.nonempty = true := by
  cases denoted with
  | @line _ n numeral =>
      refine ⟨?_, decide_eq_true (Nat.le_refl n)⟩
      simp only [parse?, numeral_unsplit numeral, numeral_iff.mpr numeral, Option.map_some]
  | @pair first last low high lower upper ordered =>
      have split : (first ++ '-' :: last).splitOn '-' = [first, last] := by
        rw [List.splitOn_append_cons_self, numeral_unsplit lower, numeral_unsplit upper, List.singleton_append]
      exact ⟨parse_pair split lower upper, decide_eq_true ordered⟩
  | @trailed first last low high rest lower upper ordered =>
      have split : (first ++ '-' :: last ++ '-' :: rest).splitOn '-' = first :: last :: rest.splitOn '-' := by
        rw [List.splitOn_append_cons_self, List.splitOn_append_cons_self, numeral_unsplit lower, numeral_unsplit upper,
          List.append_assoc, List.singleton_append, List.singleton_append]
      exact ⟨parse_pair split lower upper, decide_eq_true ordered⟩

theorem parse_denotes {text : Text} {range : LineRange} (read : parse? text = some range) (ordered : range.nonempty = true) :
    Denotes text range := by
  have whole : ['-'].intercalate (text.splitOn '-') = text := List.intercalate_splitOn '-'
  unfold parse? at read
  cases split : text.splitOn '-' with
  | nil => exact absurd split (List.splitOn_ne_nil '-' text)
  | cons first rest =>
      rw [split] at read whole
      cases rest with
      | nil =>
          obtain ⟨n, numeral, rfl⟩ := Option.map_eq_some_iff.mp read
          have same : first = text := by simpa using whole
          exact same ▸ .line (numeral_iff.mp numeral)
      | cons last rest =>
          obtain ⟨low, lower, later⟩ := Option.bind_eq_some_iff.mp read
          obtain ⟨high, upper, rfl⟩ := Option.map_eq_some_iff.mp later
          have order : low ≤ high := of_decide_eq_true ordered
          rw [List.intercalate_cons_cons] at whole
          cases rest with
          | nil =>
              have same : first ++ '-' :: last = text := by simpa using whole
              exact same ▸ .pair (numeral_iff.mp lower) (numeral_iff.mp upper) order
          | cons next rest =>
              have same : first ++ '-' :: last ++ '-' :: ['-'].intercalate (next :: rest) = text := by
                rw [List.intercalate_cons_cons] at whole
                simpa using whole
              exact same ▸ .trailed _ (numeral_iff.mp lower) (numeral_iff.mp upper) order

theorem piece_iff {piece : Text} {range : LineRange} : piece? piece = some range ↔ Denotes (piece.filter isSign) range := by
  rw [piece?, Option.filter_eq_some_iff]
  constructor
  · intro found
    exact parse_denotes found.1 found.2
  · exact denotes_parse

theorem lists_pieces (pieces : List Text) : Lists pieces (pieces.filterMap piece?) := by
  induction pieces with
  | nil => exact .nil
  | cons piece pieces ih =>
      cases read : piece? piece with
      | none =>
          rw [List.filterMap_cons_none read]
          apply Lists.silent _ ih
          intro range denoted
          rw [piece_iff.mpr denoted] at read
          cases read
      | some range =>
          rw [List.filterMap_cons_some read]
          exact .counted (piece_iff.mp read) ih

theorem pieces_of_lists {pieces : List Text} {ranges : List LineRange} (lists : Lists pieces ranges) :
    pieces.filterMap piece? = ranges := by
  induction lists with
  | nil => rfl
  | counted denoted _ ih => rw [List.filterMap_cons_some (piece_iff.mpr denoted), ih]
  | @silent piece pieces ranges silent _ ih =>
      have unread : piece? piece = none := by
        apply Option.eq_none_iff_forall_ne_some.mpr
        intro range read
        exact silent range (piece_iff.mp read)
      rw [List.filterMap_cons_none unread, ih]

theorem parse_list_iff {spec : Text} {ranges : List LineRange} : parseList spec = ranges ↔ Lists (spec.splitOn ',') ranges := by
  rw [parse_list_pieces]
  constructor
  · intro read
    rw [← read]
    exact lists_pieces _
  · exact pieces_of_lists

theorem denotes_proper {text : Text} {range : LineRange} (denoted : Denotes text range) : range.Proper := by
  cases denoted with
  | line numeral => exact ⟨Nat.le_refl _, numeral.fits⟩
  | pair _ upper ordered => exact ⟨ordered, upper.fits⟩
  | trailed _ _ upper ordered => exact ⟨ordered, upper.fits⟩

theorem lists_proper {pieces : List Text} {ranges : List LineRange} (lists : Lists pieces ranges) :
    ∀ range ∈ ranges, range.Proper := by
  induction lists with
  | nil => exact fun range held => absurd held List.not_mem_nil
  | counted denoted _ ih => exact List.forall_mem_cons.mpr ⟨denotes_proper denoted, ih⟩
  | silent _ _ ih => exact ih

theorem parse_list_exact (spec : Text) :
    (∀ ranges, parseList spec = ranges ↔ Lists (spec.splitOn ',') ranges) ∧
      (∀ range ∈ parseList spec, range.Proper) ∧
      ∀ before noise behind, spec = before ++ noise ++ behind → (∀ c ∈ noise, isSign c = false ∧ c ≠ ',') →
        parseList (before ++ behind) = parseList spec := by
  refine ⟨fun ranges => parse_list_iff, lists_proper (parse_list_iff.mp rfl), ?_⟩
  intro before noise behind split silent
  have nothing : (noise.filter fun c => isSign c || c == ',') = [] := by
    apply List.filter_eq_nil_iff.mpr
    intro c held seen
    obtain ⟨unsigned, other⟩ := silent c held
    rw [unsigned, Bool.false_or, beq_iff_eq] at seen
    exact other seen
  apply parse_list_congr
  rw [split, List.filter_append, List.filter_append, List.filter_append, nothing, List.append_nil]

-- Leading zeros and noise inside a number are no matter; a descending pair and a pair without its end denote nothing.
theorem parse_list_exact_noise :
    let before : Text := "12 ,".toList
    let noise : Text := " line ".toList
    let behind : Text := "0x7 ,a4-b6-9,5-3,8-,x".toList
    let ranges : List LineRange := [⟨12, 12⟩, ⟨7, 7⟩, ⟨4, 6⟩]
    Lists ((before ++ noise ++ behind).splitOn ',') ranges ∧ parseList (before ++ behind) = ranges := by
  intro before noise behind ranges
  obtain ⟨reads, -, silent⟩ := parse_list_exact (before ++ noise ++ behind)
  have read : parseList (before ++ noise ++ behind) = ranges := by decide
  have kept := silent before noise behind rfl (by decide)
  exact ⟨(reads ranges).mp read, kept.trans read⟩

theorem write_denotes {range : LineRange} (proper : range.Proper) : Denotes (write range) range := by
  obtain ⟨first, last⟩ := range
  obtain ⟨ordered, fits⟩ : first ≤ last ∧ last ≤ wordMax := proper
  have upper := decimal_numeral fits
  unfold write
  by_cases same : first = last
  · subst same
    rw [if_pos rfl]
    exact .line upper
  · rw [if_neg same]
    exact .pair (decimal_numeral (Nat.le_trans ordered fits)) upper ordered

theorem write_signs (range : LineRange) : ∀ c ∈ write range, isSign c = true := by
  intro c held
  unfold write at held
  split at held
  · exact digit_sign (decimal_digits held)
  · rcases List.mem_append.mp held with first | later
    · exact digit_sign (decimal_digits first)
    · rcases List.mem_cons.mp later with rfl | last
      · rfl
      · exact digit_sign (decimal_digits last)

theorem write_list_single (ranges : List LineRange) : '\n' ∉ writeList ranges := by
  have breaks : Text.Breaks [','] ['\n'] := by decide
  apply Text.lacks_single.mp
  apply Text.intercalate_lacks breaks
  intro piece member
  obtain ⟨range, -, rfl⟩ := List.mem_map.mp member
  apply Text.lacks_single.mpr
  intro held
  exact absurd (write_signs range '\n' held) (by decide)

theorem lists_write {ranges : List LineRange} (proper : ∀ range ∈ ranges, range.Proper) :
    Lists (ranges.map write) ranges := by
  induction ranges with
  | nil => exact .nil
  | cons range ranges ih =>
      obtain ⟨here, later⟩ := List.forall_mem_cons.mp proper
      apply Lists.counted _ (ih later)
      rw [List.filter_eq_self.mpr (write_signs range)]
      exact write_denotes here

theorem write_list_read {ranges : List LineRange} (proper : ∀ range ∈ ranges, range.Proper) :
    parseList (writeList ranges) = ranges := by
  by_cases some : ranges = []
  · subst some
    rfl
  · apply parse_list_iff.mpr
    have whole : ∀ piece ∈ ranges.map write, ',' ∉ piece := by
      intro piece member held
      obtain ⟨range, -, rfl⟩ := List.mem_map.mp member
      exact absurd (write_signs range ',' held) (by decide)
    rw [writeList, List.splitOn_intercalate ',' whole (by simpa using some)]
    exact lists_write proper

end CodeFence.LineRange
