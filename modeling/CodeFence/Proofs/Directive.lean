import CodeFence.Directive
import CodeFence.Proofs.Fence.Mark
import CodeFence.Proofs.LineRange
import CodeFence.Proofs.Placeholder

set_option autoImplicit false

namespace CodeFence

open Text (Lacks)

namespace Text

theorem cut_newline {before : Text} (lacks : before.Lacks ['\n']) (behind : Text) :
    cut? ['\n'] (before ++ '\n' :: behind) = some (before, behind) := by
  induction before with
  | nil => exact cut_here (List.cons_ne_nil '\n' []) behind
  | cons c before ih =>
      have here : strip? ['\n'] (c :: (before ++ '\n' :: behind)) = none := by
        rw [strip_eq_none_iff, List.cons_prefix_cons]
        exact fun found => lacks (found.1 ▸ (List.prefix_append ['\n'] before).isInfix)
      rw [List.cons_append, cut?, here, ih (lacks_part lacks (List.suffix_cons c before).isInfix)]
      rfl

end Text

namespace Directive

theorem expandTabs_append (a b : Text) : expandTabs (a ++ b) = expandTabs a ++ expandTabs b :=
  List.flatMap_append

theorem expandTabs_blank {blanks : Text} (blank : blanks.AllBlank) : (expandTabs blanks).AllBlank := by
  intro c held
  obtain ⟨d, inside, written⟩ := List.mem_flatMap.mp held
  by_cases tab : d = '\t'
  · rw [if_pos tab] at written
    simp only [List.mem_cons, List.not_mem_nil, or_false, or_self] at written
    rw [written]
    decide
  · rw [if_neg tab, List.mem_singleton] at written
    exact written ▸ blank d inside

theorem expandTabs_lacks {text mark : Text} (breaks : Text.Breaks [' ', ' '] mark) (lacks : text.Lacks mark) :
    (expandTabs text).Lacks mark := by
  refine Text.flatMap_lacks lacks fun c => ?_
  by_cases tab : c = '\t'
  · rw [if_pos tab]
    exact Or.inr breaks
  · exact Or.inl (if_neg tab)

theorem expandTabs_keeps {text mark : Text} (plain : '\t' ∉ mark) (lacks : (expandTabs text).Lacks mark) : text.Lacks mark :=
  fun found => lacks (Text.flatMap_stands (fun c held => if_neg fun (tab : c = '\t') => plain (tab ▸ held)) found)

theorem expandTabs_leads {text mark : Text} (space : ' ' ∉ mark) (found : mark <+: expandTabs text) : mark <+: text := by
  refine Text.edited_leads (Text.flatMap_edited _ text) ?_ found
  rintro new ⟨c, -, rfl, changed⟩
  by_cases tab : c = '\t'
  · rw [if_pos tab]
    exact ⟨' ', rfl, space⟩
  · exact absurd (if_neg tab) changed

theorem expandTabs_firm {text : Text} (firm : text.Firm) : (expandTabs text).Firm := by
  obtain ⟨front, c, rfl, seen⟩ := firm
  have plain : expandTabs [c] = [c] := by
    refine Text.flatMap_keeps fun d held => if_neg fun (tab : d = '\t') => ?_
    rw [← List.mem_singleton.mp held, tab] at seen
    exact absurd seen (by decide)
  rw [expandTabs_append, plain]
  exact ⟨_, c, rfl, seen⟩

theorem expandTabs_id {text : Text} (plain : '\t' ∉ text) : expandTabs text = text :=
  Text.flatMap_keeps fun c held => if_neg fun (tab : c = '\t') => plain (tab ▸ held)

def tab : Substitution :=
  (['\t'], [' ', ' '])

theorem expandTabs_substitute (text : Text) : expandTabs text = Text.substitute [tab] text :=
  (Text.substitute_char '\t' [' ', ' '] text).symm

theorem expandTabs_replace (text : Text) : expandTabs text = text.replace ['\t'] [' ', ' '] := by
  rw [expandTabs_substitute]
  exact Text.substitute_single (List.cons_ne_nil '\t' []) text [' ', ' ']

theorem expandTabs_signs (spec : Text) : (expandTabs spec).filter (fun c => LineRange.isSign c || c == ',') =
    spec.filter fun c => LineRange.isSign c || c == ',' := by
  rw [expandTabs_substitute]
  exact Text.substitute_filter (by decide) (by decide) spec

-- A text without tabs and without blanks around it is taken apart at its first line break.
def read (code : Text) : Directive :=
  match Text.cut? ['\n'] code with
  | none => ⟨code, []⟩
  | some (line, rest) =>
      match spec? line with
      | none => ⟨code, []⟩
      | some spec => ⟨rest, LineRange.parseList spec⟩

theorem parse_read (raw : Text) : parse raw = read (expandTabs raw).trim := rfl

theorem parse_blank {blanks : Text} (blank : blanks.AllBlank) (raw : Text) : parse (raw ++ blanks) = parse raw := by
  rw [parse_read, parse_read, expandTabs_append, Text.trim_blank (expandTabs_blank blank)]

theorem read_part (code : Text) : (read code).code <:+: code := by
  unfold read
  cases cut : Text.cut? ['\n'] code with
  | none => exact List.infix_rfl
  | some parts =>
      obtain ⟨line, rest⟩ := parts
      cases found : spec? line with
      | none => simp only [found, List.infix_rfl]
      | some spec =>
          simp only [found]
          rw [Text.cut_parts cut]
          exact (List.suffix_append _ rest).isInfix

theorem read_append {tail : Text} (some : tail ≠ []) (whole : '\n' ∉ tail) (code : Text) :
    (read (code ++ tail)).code = (read code).code ++ tail := by
  obtain ⟨c, rest, rfl⟩ := List.exists_cons_of_ne_nil some
  have outside : c ∉ ['\n'] := fun held => whole (List.mem_singleton.mp held ▸ List.mem_cons_self)
  have later : Text.cut? ['\n'] rest = none :=
    Text.cut_eq_none_iff.mpr (Text.lacks_absent List.mem_cons_self fun held => whole (List.mem_cons_of_mem c held))
  have cut := Text.cut_apart outside (List.cons_ne_nil '\n' []) code rest
  rw [later] at cut
  unfold read
  rw [cut]
  cases first : Text.cut? ['\n'] code with
  | none => rfl
  | some parts =>
      simp only [Option.map_some, Option.some_or]
      cases spec? parts.1 with
      | none => rfl
      | some spec => rfl

theorem read_firm {code : Text} (firm : code.Firm) : (read code).code.Firm := by
  unfold read
  cases cut : Text.cut? ['\n'] code with
  | none => exact firm
  | some parts =>
      obtain ⟨line, rest⟩ := parts
      cases found : spec? line with
      | none => simpa only [found] using firm
      | some spec =>
          simp only [found]
          obtain ⟨front, c, shape, seen⟩ := firm
          have split := Text.cut_parts cut
          rcases List.eq_nil_or_concat rest with rfl | ⟨init, d, rfl⟩
          · rw [shape, List.append_nil] at split
            obtain ⟨-, same⟩ := List.append_inj' split rfl
            rw [List.singleton_inj.mp same] at seen
            exact absurd seen (by decide)
          · rw [shape, List.concat_eq_append, ← List.append_assoc] at split
            obtain ⟨-, same⟩ := List.append_inj' split rfl
            exact ⟨init, d, List.concat_eq_append, List.singleton_inj.mp same ▸ seen⟩

theorem parse_code_lacks {raw mark : Text} (breaks : Text.Breaks [' ', ' '] mark) (lacks : raw.Lacks mark) :
    (parse raw).code.Lacks mark :=
  Text.lacks_part (expandTabs_lacks breaks lacks) ((read_part _).trans (Text.trim_inside _))

def Leads (text : Text) : Prop :=
  ∃ blanks spec rest, text = marker ++ blanks ++ key ++ spec ++ '\n' :: rest ∧ blanks.AllBlank ∧ '\n' ∉ blanks ∧ '\n' ∉ spec

def before (spec body : Text) : Text :=
  marker ++ key ++ spec ++ '\n' :: body

theorem spec_iff {line spec : Text} : spec? line = some spec ↔ ∃ blanks : Text, blanks.AllBlank ∧ line = marker ++ blanks ++ key ++ spec := by
  unfold spec?
  constructor
  · intro found
    obtain ⟨rest, marked, keyed⟩ := Option.bind_eq_some_iff.mp found
    obtain ⟨blanks, blank, split⟩ := Text.trimStart_split rest
    refine ⟨blanks, blank, ?_⟩
    rw [Text.strip_eq_some_iff.mp keyed] at split
    rw [Text.strip_eq_some_iff.mp marked, split]
    simp only [List.append_assoc]
  · rintro ⟨blanks, blank, rfl⟩
    have named : Text.trimStart (key ++ spec) = key ++ spec :=
      Text.trimStart_id fun c (first : c ∈ some 'h') => Option.some.inj first ▸ by decide
    rw [List.append_assoc, List.append_assoc, Text.strip_append, Option.bind_some, Text.trimStart_blank blank, named,
      Text.strip_append]

theorem read_plain {code : Text} (plain : ¬ Leads code) : read code = ⟨code, []⟩ := by
  unfold read
  cases cut : Text.cut? ['\n'] code with
  | none => rfl
  | some parts =>
      obtain ⟨line, rest⟩ := parts
      cases found : spec? line with
      | none => simp only [found]
      | some spec =>
          obtain ⟨blanks, blank, rfl⟩ := spec_iff.mp found
          have whole := Text.cut_parts cut
          have single := Text.cut_first (List.cons_ne_nil '\n' []) cut
          rw [Text.lacks_single] at single
          simp only [List.mem_append, not_or] at single
          rw [List.append_assoc, List.singleton_append] at whole
          exact absurd ⟨blanks, spec, rest, whole, blank, single.1.1.2, single.2⟩ plain

theorem expandTabs_filled {text : Text} (filled : ¬ text.AllBlank) : ¬ (expandTabs text).AllBlank := by
  intro blank
  refine filled fun c held => ?_
  by_cases tab : c = '\t'
  · rw [tab]
    decide
  · exact blank c (List.mem_flatMap.mpr ⟨c, held, by simp [tab]⟩)

theorem expandTabs_single {text : Text} (single : '\n' ∉ text) : '\n' ∉ expandTabs text := by
  rw [← Text.lacks_single] at single ⊢
  exact expandTabs_lacks (by decide) single

theorem read_leading {blanks spec rest : Text} (blank : blanks.AllBlank) (whole : '\n' ∉ blanks) (single : '\n' ∉ spec) :
    read (marker ++ blanks ++ key ++ spec ++ '\n' :: rest) = ⟨rest, LineRange.parseList spec⟩ := by
  have line : Text.Lacks (marker ++ blanks ++ key ++ spec) ['\n'] := by
    apply Text.lacks_single.mpr
    simp only [List.mem_append, not_or]
    exact ⟨⟨⟨by decide, whole⟩, by decide⟩, single⟩
  have found : spec? (marker ++ blanks ++ key ++ spec) = some spec := spec_iff.mpr ⟨blanks, blank, rfl⟩
  rw [read, Text.cut_newline line]
  simp only [found]

theorem parse_marked {blanks gap spec body : Text} (lead : blanks.AllBlank) (apart : gap.AllBlank) (whole : '\n' ∉ gap)
    (single : '\n' ∉ spec) (filled : ¬ body.AllBlank) :
    parse (blanks ++ marker ++ gap ++ key ++ spec ++ '\n' :: body) = ⟨(expandTabs body).trimEnd, LineRange.parseList spec⟩ := by
  let line : Text := marker ++ expandTabs gap ++ key ++ expandTabs spec ++ ['\n']
  have expanded : expandTabs (blanks ++ marker ++ gap ++ key ++ spec ++ '\n' :: body) =
      expandTabs blanks ++ (line ++ expandTabs body) := by
    rw [← List.singleton_append]
    simp only [expandTabs_append, line, ← List.append_assoc]
    rfl
  have front : Text.trimStart (line ++ expandTabs body) = line ++ expandTabs body :=
    Text.trimStart_id fun c (first : c ∈ some '/') => Option.some.inj first ▸ by decide
  have trimmed : (expandTabs (blanks ++ marker ++ gap ++ key ++ spec ++ '\n' :: body)).trim = line ++ (expandTabs body).trimEnd := by
    rw [Text.trim, expanded, Text.trimStart_blank (expandTabs_blank lead), front, Text.trimEnd_append (expandTabs_filled filled)]
  rw [parse_read, trimmed, List.append_assoc, List.singleton_append,
    read_leading (expandTabs_blank apart) (expandTabs_single whole) (expandTabs_single single),
    LineRange.parse_list_congr (expandTabs_signs spec)]

theorem parse_before {spec body : Text} (single : '\n' ∉ spec) (filled : ¬ body.AllBlank) :
    parse (before spec body) = ⟨(expandTabs body).trimEnd, LineRange.parseList spec⟩ := by
  have nothing : Text.AllBlank [] := by decide
  have marked := parse_marked nothing nothing List.not_mem_nil single filled
  simpa only [before, List.nil_append, List.append_nil] using marked

theorem parse_write {ranges : List LineRange} {blanks gap body : Text} (proper : ∀ range ∈ ranges, range.Proper)
    (lead : blanks.AllBlank) (apart : gap.AllBlank) (whole : '\n' ∉ gap) (filled : ¬ body.AllBlank) :
    parse (blanks ++ marker ++ gap ++ key ++ LineRange.writeList ranges ++ '\n' :: body) =
      ⟨(body.replace "\t".toList "  ".toList).trimEnd, ranges⟩ := by
  have code : body.replace "\t".toList "  ".toList = expandTabs body := (expandTabs_replace body).symm
  have single := LineRange.write_list_single ranges
  rw [parse_marked lead apart whole single filled, LineRange.write_list_read proper, code]

-- The second directive is a line of the code.
theorem parse_write_second :
    let blanks : Text := "\n\t\x0b".toList
    let gap : Text := "\t\r".toList
    let ranges : List LineRange := [⟨0, 7⟩, ⟨12, 12⟩, ⟨3, wordMax⟩]
    let body : Text := "\n\ta\n///highlight:2\nb\t\n ".toList
    parse (blanks ++ marker ++ gap ++ key ++ LineRange.writeList ranges ++ '\n' :: body) =
      ⟨"\n  a\n///highlight:2\nb".toList, ranges⟩ := by
  intro blanks gap ranges body
  have code : body.replace "\t".toList "  ".toList = expandTabs body := (expandTabs_replace body).symm
  have kept : (expandTabs body).trimEnd = "\n  a\n///highlight:2\nb".toList := by decide
  rw [← kept, ← code]
  exact parse_write (by decide) (by decide) (by decide) (by decide) (by decide)

section Cover

variable {rows : List Substitution} (chosen : ∀ row ∈ rows, row.swap ∈ Placeholder.table)

include chosen

theorem tab_separate : Text.Separate (tab :: rows) := by
  have every : Text.Separate (tab :: Placeholder.table.map Prod.swap) :=
    ⟨by decide, by decide, by decide, by decide, by decide⟩
  exact Text.separate_subset every (List.cons_subset_cons tab (Placeholder.cover_subset chosen))

theorem expandTabs_cover (text : Text) : expandTabs (Text.substitute rows text) = Text.substitute rows (expandTabs text) := by
  rw [expandTabs_substitute, expandTabs_substitute]
  exact (Text.substitute_comm (tab_separate chosen) text).symm

theorem trim_cover (raw : Text) :
    (expandTabs (Text.substitute rows raw)).trim = Text.substitute rows (expandTabs raw).trim := by
  rw [expandTabs_cover chosen]
  exact Text.substitute_trim (Placeholder.cover_marked chosen) (Placeholder.cover_seen chosen)
    (Placeholder.cover_solid chosen) (expandTabs raw)

theorem cut_cover (text : Text) : Text.cut? ['\n'] (Text.substitute rows text) =
    (Text.cut? ['\n'] text).map fun parts => (Text.substitute rows parts.1, Text.substitute rows parts.2) := by
  have breaks : ∀ row ∈ Placeholder.table, (∃ c ∈ row.1.head?, c ∉ ['\n']) ∧ ∃ m ∈ ['\n'].head?, m ∉ row.1 := by decide
  have single {part : Text} (lacks : part.Lacks ['\n']) : Lacks (Text.substitute rows part) ['\n'] := by
    refine Text.edited_lacks (Text.substitute_edited rows (Placeholder.cover_marked chosen) part) ?_ lacks
    rintro new ⟨row, member, -, rfl⟩
    exact breaks row.swap (chosen row member)
  cases cut : Text.cut? ['\n'] text with
  | none => exact Text.cut_eq_none_iff.mpr (single (Text.cut_eq_none_iff.mp cut))
  | some parts =>
      obtain ⟨line, rest⟩ := parts
      have first := Text.cut_first (List.cons_ne_nil '\n' []) cut
      have apart := Text.substitute_apart (Placeholder.cover_marked chosen)
        (Placeholder.cover_seen chosen '\n' (by decide)) line rest
      rw [Text.cut_parts cut, List.append_assoc, List.singleton_append, apart, Text.cut_newline (single first)]
      rfl

theorem spec_cover (slashes : ∀ row ∈ rows, '/' ∉ row.1) (line : Text) :
    spec? (Text.substitute rows line) = (spec? line).map (Text.substitute rows) := by
  have marked := Placeholder.cover_marked chosen
  have letters : ∀ row ∈ Placeholder.table, ∀ m ∈ key, m ∉ row.2 := by decide
  have leads : ∀ row ∈ Placeholder.table, (∃ c ∈ row.1.head?, c ∉ marker) ∧ ∃ c ∈ row.1.head?, c ∉ key := by decide
  have front : Text.strip? marker (Text.substitute rows line) = (Text.strip? marker line).map (Text.substitute rows) :=
    Text.substitute_strip marked (by simpa [marker] using slashes) (fun row member => (leads row.swap (chosen row member)).1) line
  have back (rest : Text) : Text.strip? key (Text.substitute rows rest) = (Text.strip? key rest).map (Text.substitute rows) :=
    Text.substitute_strip marked (fun m held row member => letters row.swap (chosen row member) m held)
      (fun row member => (leads row.swap (chosen row member)).2) rest
  unfold spec?
  rw [front]
  cases Text.strip? marker line with
  | none => rfl
  | some rest =>
      rw [Option.map_some, Option.bind_some, Option.bind_some, Text.substitute_trimStart marked
        (Placeholder.cover_seen chosen) (Placeholder.cover_solid chosen), back]

theorem parse_cover (slashes : ∀ row ∈ rows, '/' ∉ row.1) (raw : Text) :
    parse (Text.substitute rows raw) = ⟨Text.substitute rows (parse raw).code, (parse raw).lines⟩ := by
  have silent : ∀ row ∈ Placeholder.table, (row.1.filter fun c => LineRange.isSign c || c == ',') =
      row.2.filter fun c => LineRange.isSign c || c == ',' := by decide
  rw [parse_read, parse_read, trim_cover chosen, read, read, cut_cover chosen]
  cases cut : Text.cut? ['\n'] (expandTabs raw).trim with
  | none => rfl
  | some parts =>
      obtain ⟨line, rest⟩ := parts
      simp only [Option.map_some, spec_cover chosen slashes]
      cases found : spec? line with
      | none => rfl
      | some spec =>
          have lines := LineRange.parse_list_congr (Text.substitute_filter (Placeholder.cover_marked chosen)
            (fun row member => silent row.swap (chosen row member)) spec)
          simp only [Option.map_some, lines]

end Cover

end Directive
end CodeFence
