import CodeFence.Proofs.Fence.Block

set_option autoImplicit false

namespace CodeFence

namespace Language

theorem ofTag_eq_none_iff {tag : Text} : ofTag? tag = none ↔ ∀ language : Language, language.tag ≠ tag := by
  rw [Family.forall_language]
  simp [ofTag?]

end Language

namespace Family

-- A line that may follow the code of a block: blanks, or the token with blanks around it.
def Closing (family : Family) (line : Text) : Prop :=
  line.trim = [] ∨ line.trim = family.token

instance (family : Family) (line : Text) : Decidable (family.Closing line) :=
  inferInstanceAs (Decidable (line.trim = [] ∨ line.trim = family.token))

theorem closes_iff {family : Family} {line : Text} : family.closes line = true ↔ family.Closing line := by
  rw [closes, Bool.or_eq_true, List.isEmpty_iff, beq_iff_eq]
  rfl

end Family

namespace Block

-- The outcomes of reading a text. The lines of the text without the blanks around it decide.
inductive Reads (family : Family) (raw : Text) : Except Fault Block → Prop
  | empty (blank : raw.trim = []) : Reads family raw (.error .emptyInput)
  | unfenced (filled : raw.trim ≠ []) (bare : ¬ family.token <+: raw.trim) : Reads family raw (.error .notAFence)
  | unnamed {rest : Text} {body : List Text} (lines : raw.trim.lines = (family.token ++ rest) :: body)
      (foreign : ∀ language : Language, language.tag ≠ rest.trim) : Reads family raw (.error (.unknownLanguage rest.trim))
  | fenced {rest : Text} {kept closing : List Text} {language : Language}
      (lines : raw.trim.lines = (family.token ++ rest) :: (kept ++ closing)) (named : language.tag = rest.trim)
      (closed : ∀ line ∈ closing, family.Closing line) (last : ∀ line ∈ kept.getLast?, ¬ family.Closing line) :
      Reads family raw (.ok ⟨language, Text.unlines kept⟩)

theorem dropClosing_ends (family : Family) (lines : List Text) : ∀ line ∈ (dropClosing family lines).getLast?, ¬ family.Closing line := by
  intro line last closing
  have filled : dropClosing family lines ≠ [] := List.ne_nil_of_mem (List.mem_of_getLast? last)
  have stops := List.rdropWhile_last_not family.closes lines filled
  rw [Option.mem_def, List.getLast?_eq_some_getLast filled] at last
  obtain rfl := Option.some.inj last
  exact stops (Family.closes_iff.mpr closing)

theorem dropClosing_kept_closing {family : Family} {kept closing : List Text} (closed : ∀ line ∈ closing, family.Closing line)
    (last : ∀ line ∈ kept.getLast?, ¬ family.Closing line) : dropClosing family (kept ++ closing) = kept := by
  induction closing using List.reverseRecOn with
  | nil =>
      rw [List.append_nil]
      apply List.rdropWhile_eq_self_iff.mpr
      intro filled closes
      exact last _ (List.getLast?_eq_some_getLast filled) (Family.closes_iff.mp closes)
  | append_singleton closing line ih =>
      have here : family.Closing line := closed line (by simp)
      rw [← List.append_assoc, dropClosing_last _ (Family.closes_iff.mpr here)]
      exact ih fun other held => closed other (List.mem_append_left _ held)

theorem parse_bare {family : Family} {raw : Text} (filled : raw.trim ≠ []) (bare : ¬ family.token <+: raw.trim) :
    parse family raw = .error .notAFence := by
  obtain ⟨-, -, -, -, -, solid⟩ := Text.trim_split raw
  obtain ⟨c, line, body, lines⟩ := Text.lines_filled solid filled
  have closed : Text.strip? family.token (c :: line) = none := by
    rw [Text.strip_eq_none_iff]
    intro found
    obtain ⟨rest, split⟩ := found
    rw [← split] at lines
    exact bare ((Text.lines_mark_iff (Family.outside_token family.newline_outside)).mpr ⟨rest, body, lines⟩)
  unfold parse
  rw [lines]
  simp only [closed]

theorem parse_of_reads {family : Family} {raw : Text} {outcome : Except Fault Block} (reads : Reads family raw outcome) :
    parse family raw = outcome := by
  cases reads with
  | empty blank =>
      unfold parse
      rw [blank]
      rfl
  | unfenced filled bare => exact parse_bare filled bare
  | unnamed lines foreign => rw [parse_token lines, Language.ofTag_eq_none_iff.mpr foreign]
  | fenced lines named closed last =>
      rw [parse_token lines, ← named, Language.ofTag_tag]
      simp only [dropClosing_kept_closing closed last]

theorem reads_parse (family : Family) (raw : Text) : Reads family raw (parse family raw) := by
  by_cases filled : raw.trim = []
  · have read := parse_of_reads (Reads.empty filled : Reads family raw _)
    rw [read]
    exact .empty filled
  · by_cases opened : family.token <+: raw.trim
    · have bare : '\n' ∉ family.token := Family.outside_token family.newline_outside
      obtain ⟨rest, body, lines⟩ := (Text.lines_mark_iff bare).mp opened
      rw [parse_token lines]
      cases named : Language.ofTag? rest.trim with
      | none => exact .unnamed lines (Language.ofTag_eq_none_iff.mp named)
      | some language =>
          obtain ⟨closing, split, closes⟩ := dropClosing_split family body
          have closed : ∀ line ∈ closing, family.Closing line := fun line held => Family.closes_iff.mp (closes line held)
          rw [split] at lines
          exact .fenced lines (Language.tag_of_ofTag named) closed (dropClosing_ends family body)
    · rw [parse_bare filled opened]
      exact .unfenced filled opened

theorem token_filled {family : Family} {line : Text} (bare : line.trim = family.token) : ¬ line.AllBlank := by
  intro blank
  have empty : line.trim = [] := List.isEmpty_iff.mp (Text.blank_iff_trim.mpr blank)
  exact family.token_marked (bare.symm.trans empty)

theorem closing_filled {family : Family} {lines : List Text} (token : ∃ line ∈ lines, line.trim = family.token) :
    ¬ (Text.unlines lines).AllBlank := by
  obtain ⟨line, member, bare⟩ := token
  intro blank
  exact token_filled bare fun c held => blank c ((Text.line_inside member).subset held)

-- The blanks behind the last token are all that trimming takes off closing lines.
theorem closing_trimmed {family : Family} {lines : List Text} (closed : ∀ line ∈ lines, '\n' ∉ line ∧ family.Closing line)
    (token : ∃ line ∈ lines, line.trim = family.token) :
    ∃ kept, kept ≠ [] ∧ (Text.unlines lines).trimEnd = Text.unlines kept ∧ ∀ line ∈ kept, '\n' ∉ line ∧ family.Closing line := by
  induction lines with
  | nil =>
      obtain ⟨line, member, -⟩ := token
      cases member
  | cons first rest ih =>
      obtain ⟨here, later⟩ := List.forall_mem_cons.mp closed
      by_cases more : ∃ line ∈ rest, line.trim = family.token
      · obtain ⟨kept, some, trimmed, closing⟩ := ih later more
        have filled : rest ≠ [] := by
          obtain ⟨line, member, -⟩ := more
          exact List.ne_nil_of_mem member
        have split (text : Text) : first ++ '\n' :: text = (first ++ ['\n']) ++ text := by simp
        refine ⟨first :: kept, List.cons_ne_nil first kept, ?_, List.forall_mem_cons.mpr ⟨here, closing⟩⟩
        rw [Text.unlines_cons first filled, split, Text.trimEnd_append (closing_filled more), trimmed, ← split,
          Text.unlines_cons first some]
      · have blank : ∀ line ∈ rest, line.AllBlank := fun line member =>
          Text.blank_of_trim ((later line member).2.resolve_right fun bare => more ⟨line, member, bare⟩)
        obtain ⟨tail, behind, blanks⟩ := Text.unlines_append [first] rest
        have inside : first.trimEnd <:+: first := by
          obtain ⟨last, -, split⟩ := Text.trimEnd_split first
          exact ⟨[], last, split.symm⟩
        refine ⟨[first.trimEnd], List.cons_ne_nil _ [], ?_, List.forall_mem_singleton.mpr ⟨fun held => here.1 (inside.subset held), ?_⟩⟩
        · rw [← List.singleton_append, behind, Text.trimEnd_blank (blanks blank)]
          simp [Text.unlines]
        · rw [Family.Closing, Text.trim_trimEnd]
          exact here.2

theorem trimStart_token (family : Family) (rest : Text) : Text.trimStart (family.token ++ rest) = family.token ++ rest := by
  cases family <;> rfl

theorem parse_closing {family : Family} {code : Text} {trailing : List Text} (last : ¬ family.Closing code.lastLine)
    (closed : ∀ line ∈ trailing, '\n' ∉ line ∧ family.Closing line) (token : ∃ line ∈ trailing, line.trim = family.token)
    (language : Language) :
    parse family (family.token ++ language.tag ++ '\n' :: code ++ '\n' :: Text.unlines trailing) = .ok ⟨language, code⟩ := by
  obtain ⟨kept, some, trimmed, closing⟩ := closing_trimmed closed token
  have split (text : Text) : family.token ++ language.tag ++ '\n' :: code ++ '\n' :: text =
      family.token ++ (language.tag ++ '\n' :: code ++ ['\n']) ++ text := by simp
  have whole : Text.trim (family.token ++ language.tag ++ '\n' :: code ++ '\n' :: Text.unlines trailing) =
      family.token ++ language.tag ++ '\n' :: code ++ '\n' :: Text.unlines kept := by
    rw [Text.trim, split, List.append_assoc, trimStart_token, ← List.append_assoc, Text.trimEnd_append (closing_filled token),
      trimmed, ← split]
  have lines : (family.token ++ language.tag ++ '\n' :: code ++ '\n' :: Text.unlines kept).lines =
      (family.token ++ language.tag) :: (code.lines ++ kept) := by
    have first : Text.lines (family.token ++ language.tag) = [family.token ++ language.tag] :=
      Text.lines_single (family.newline_apart language)
    rw [List.append_assoc, List.cons_append, Text.lines_break, Text.lines_break, first,
      Text.lines_unlines some fun line held => (closing line held).1]
    rfl
  have ends : ∀ line ∈ code.lines.getLast?, ¬ family.Closing line := by
    intro line held
    rwa [Option.mem_unique held (Text.lines_ends code)]
  have named : language.tag = language.tag.trim := Language.tag_of_ofTag (ofTag_spaced language)
  rw [← whole] at lines
  have read := parse_of_reads (Reads.fenced lines named (fun line held => (closing line held).2) ends)
  rwa [Text.unlines_lines] at read

theorem parse_exact (family : Family) :
    (∀ (raw : Text) (outcome : Except Fault Block), parse family raw = outcome ↔ Reads family raw outcome) ∧
      ∀ (language : Language) (code : Text) (trailing : List Text), ¬ family.Closing code.lastLine →
        (∀ line ∈ trailing, '\n' ∉ line ∧ family.Closing line) → (∃ line ∈ trailing, line.trim = family.token) →
          parse family (family.token ++ language.tag ++ '\n' :: code ++ '\n' :: Text.unlines trailing) = .ok ⟨language, code⟩ := by
  constructor
  · intro raw outcome
    constructor
    · intro read
      rw [← read]
      exact reads_parse family raw
    · exact parse_of_reads
  · intro language code trailing last closed token
    exact parse_closing last closed token language

theorem parse_exact_inner :
    let code : Text := "\n~~~\r\nb \x7b\x7d  ".toList
    let trailing : List Text := ["\r".toList, " ~~~\t".toList, [], "~~~ ".toList, "  ".toList]
    let raw : Text := Family.tilde.token ++ Language.css.tag ++ '\n' :: code ++ '\n' :: Text.unlines trailing
    parse .tilde raw = .ok ⟨.css, code⟩ ∧ Reads .tilde raw (.ok ⟨.css, code⟩) := by
  intro code trailing raw
  obtain ⟨reads, written⟩ := parse_exact .tilde
  have last : ¬ Family.tilde.Closing code.lastLine := by decide +kernel
  have closed : ∀ line ∈ trailing, '\n' ∉ line ∧ Family.tilde.Closing line := by decide +kernel
  have token : ∃ line ∈ trailing, line.trim = Family.tilde.token := by decide +kernel
  have read : parse .tilde raw = .ok ⟨.css, code⟩ := written .css code trailing last closed token
  exact ⟨read, (reads raw _).mp read⟩

end Block
end CodeFence
