import CodeFence.Command.Files
import Mathlib.Data.List.Basic

set_option autoImplicit false

namespace CodeFence

namespace Path

theorem components_slash (front rest : Text) : components (front ++ '/' :: rest) = components front ++ components rest :=
  List.splitOn_append_cons_self front rest

theorem components_single {name : Text} (whole : '/' ∉ name) : components name = [name] :=
  List.splitOn_eq_singleton whole

theorem component_whole {path name : Text} (member : name ∈ components path) : '/' ∉ name := by
  induction length : path.length using Nat.strongRecOn generalizing path with
  | _ size ih =>
  by_cases slash : '/' ∈ path
  · obtain ⟨first, rest, rfl, fresh⟩ := List.eq_append_cons_of_mem slash
    rw [components_slash, components_single fresh, List.singleton_append, List.mem_cons] at member
    by_cases here : name = first
    · exact here ▸ fresh
    · have shorter : rest.length < size := by
        rw [← length, List.length_append, List.length_cons]
        omega
      exact ih rest.length shorter (member.resolve_left here) rfl
  · rw [components_single slash, List.mem_singleton] at member
    exact member ▸ slash

-- A name that a file can have in a directory: one component, and none that leads elsewhere.
structure Proper (name : Text) : Prop where
  whole : '/' ∉ name
  named : named name = true
  downward : name ≠ ['.', '.']

theorem fileName_proper {path name : Text} (found : fileName? path = some name) : Proper name := by
  simp only [fileName?, Option.filter_eq_some_iff, decide_eq_true_eq] at found
  have member := List.mem_of_getLast? found.1
  rw [List.mem_filter] at member
  exact ⟨component_whole member.1, member.2, found.2⟩

theorem absolute_join {directory : Text} (some : directory ≠ []) (name : Text) :
    absolute (join directory name) = absolute directory := by
  obtain ⟨c, rest, rfl⟩ := List.exists_cons_of_ne_nil some
  unfold join
  by_cases ended : c :: rest = [] ∨ (c :: rest).getLast? = Option.some '/'
  · rw [if_pos ended]
    rfl
  · rw [if_neg ended]
    rfl

theorem components_join {directory name : Text} (some : directory ≠ []) (whole : '/' ∉ name) :
    ∃ front : List Text, components (join directory name) = front ++ [name] ∧
      (components directory = front ∨ components directory = front ++ [[]]) := by
  have single := components_single whole
  by_cases ended : directory.getLast? = Option.some '/'
  · obtain ⟨front, rfl⟩ := List.getLast?_eq_some_iff.mp ended
    refine ⟨components front, ?_, Or.inr (components_slash front [])⟩
    rw [join, if_pos (Or.inr ended), List.append_assoc, List.singleton_append, components_slash, single]
  · refine ⟨components directory, ?_, Or.inl rfl⟩
    rw [join, if_neg (not_or.mpr ⟨some, ended⟩), components_slash, single]

theorem fileName_join {name : Text} (proper : Proper name) (directory : Text) : fileName? (join directory name) = some name := by
  have ended : ∃ front, components (join directory name) = front ++ [name] := by
    by_cases empty : directory = []
    · refine ⟨[], ?_⟩
      rw [join, if_pos (Or.inl empty), empty]
      exact components_single proper.whole
    · obtain ⟨front, way, -⟩ := components_join empty proper.whole
      exact ⟨front, way⟩
  obtain ⟨front, way⟩ := ended
  simp [fileName?, way, proper.named, proper.downward]

theorem join_nonempty {directory : Text} (some : directory ≠ []) (name : Text) : join directory name ≠ [] := by
  unfold join
  by_cases ended : directory = [] ∨ directory.getLast? = Option.some '/'
  · rw [if_pos ended]
    exact List.append_ne_nil_of_left_ne_nil some name
  · rw [if_neg ended]
    exact List.append_ne_nil_of_left_ne_nil some _

end Path

namespace Files

variable {files after : Files} {path chars : Text} {place : Place}

theorem lookup_others (items : List (Place × Item)) {other : Place} (apart : other ≠ place) :
    (items.filter (·.1 ≠ place)).lookup other = items.lookup other := by
  induction items with
  | nil => rfl
  | cons entry rest ih =>
      obtain ⟨key, item⟩ := entry
      by_cases here : key = place
      · subst here
        have unequal : (other == key) = false := beq_eq_false_iff_ne.mpr apart
        simpa [List.lookup_cons, unequal] using ih
      · by_cases found : other = key
        · subst found
          simp [here]
        · have unequal : (other == key) = false := beq_eq_false_iff_ne.mpr found
          simpa [here, List.lookup_cons, unequal] using ih

theorem at_put (files : Files) (rooted : place ≠ []) (item : Item) (other : Place) :
    (files.put place item).at? other = if other = place then some item else files.at? other := by
  by_cases here : other = place
  · subst here
    simp [at?, put, rooted]
  · by_cases root : other = []
    · simp [at?, root, rooted.symm]
    · have unequal : (other == place) = false := beq_eq_false_iff_ne.mpr here
      simpa [at?, put, here, root, List.lookup_cons, unequal] using lookup_others files.items here

def advance (place : Place) (component : Text) : Place :=
  if component = [] ∨ component = ['.'] then place
  else if component = ['.', '.'] then place.dropLast
  else place ++ [component]

theorem advance_proper {name : Text} (proper : Path.Proper name) (place : Place) : advance place name = place ++ [name] := by
  have named : ¬ (name = [] ∨ name = ['.']) := by
    simpa [Path.named] using proper.named
  rw [advance, if_neg named, if_neg proper.downward]

theorem walk_cons_iff {component : Text} {rest : List Text} {found : Place} : files.walk place (component :: rest) = .ok found ↔
    files.at? place = some .directory ∧ files.walk (advance place component) rest = .ok found := by
  have split : files.walk place (component :: rest) = (files.enter place).bind fun _ => files.walk (advance place component) rest := by
    rw [walk, advance]
    by_cases stays : component = [] ∨ component = ['.']
    · simp only [if_pos stays]
      rfl
    · by_cases up : component = ['.', '.']
      · simp only [if_neg stays, if_pos up]
        rfl
      · simp only [if_neg stays, if_neg up]
        rfl
  rw [split]
  unfold enter
  cases files.at? place with
  | none => simp [Except.bind]
  | some item => cases item <;> simp [Except.bind]

theorem walk_append_iff {front : List Text} {component : Text} {found : Place} :
    files.walk place (front ++ [component]) = .ok found ↔
      ∃ home, files.walk place front = .ok home ∧ files.at? home = some .directory ∧ found = advance home component := by
  induction front generalizing place with
  | nil =>
      rw [List.nil_append, walk_cons_iff]
      simp [walk, eq_comm]
  | cons first front ih =>
      rw [List.cons_append, walk_cons_iff, ih]
      simp only [walk_cons_iff, and_assoc, exists_and_left]

theorem walk_keeps (directories : ∀ place, files.at? place = some .directory → after.at? place = some .directory)
    {components : List Text} {found : Place} (walked : files.walk place components = .ok found) :
    after.walk place components = .ok found := by
  induction components generalizing place with
  | nil => exact walked
  | cons component rest ih =>
      rw [walk_cons_iff] at walked ⊢
      exact ⟨directories place walked.1, ih walked.2⟩

theorem resolve_keeps (workplace : files.workplace = after.workplace)
    (directories : ∀ place, files.at? place = some .directory → after.at? place = some .directory)
    (resolved : files.resolve path = .ok place) : after.resolve path = .ok place := by
  unfold resolve at resolved ⊢
  by_cases empty : path = []
  · rw [if_pos empty] at resolved
    cases resolved
  · rw [if_neg empty] at resolved ⊢
    have same : after.start path = files.start path := by rw [start, start, workplace]
    rw [same]
    exact walk_keeps directories resolved

theorem resolve_join_iff {directory name : Text} (some : directory ≠ []) (proper : Path.Proper name) :
    files.resolve (Path.join directory name) = .ok place ↔
      ∃ home, files.resolve directory = .ok home ∧ files.at? home = Option.some .directory ∧ place = home ++ [name] := by
  obtain ⟨front, way, whole⟩ := Path.components_join some proper.whole
  have same : files.start (Path.join directory name) = files.start directory := by rw [start, start, Path.absolute_join some]
  rw [resolve, resolve, if_neg (Path.join_nonempty some name), if_neg some, way, same, walk_append_iff]
  simp only [advance_proper proper]
  rcases whole with ended | slashed
  · rw [ended]
  · rw [slashed]
    simp only [walk_append_iff]
    constructor
    · rintro ⟨home, walked, stands, rfl⟩
      exact ⟨home, ⟨home, walked, stands, rfl⟩, stands, rfl⟩
    · rintro ⟨home, ⟨_, walked, stands, rfl⟩, -, rfl⟩
      exact ⟨home, walked, stands, rfl⟩

def Holds (files : Files) (directory path : Text) : Prop :=
  ∃ home name, files.resolve directory = .ok home ∧ files.resolve path = .ok (home ++ [name])

theorem read_ok_iff : files.read path = .ok chars ↔
    ∃ place, files.resolve path = .ok place ∧ files.at? place = some (.file chars) := by
  unfold read
  cases files.resolve path with
  | error cause => simp [Bind.bind, Except.bind]
  | ok place =>
      cases stands : files.at? place with
      | none => simp [Bind.bind, Except.bind, stands]
      | some item => cases item <;> simp [Bind.bind, Except.bind, stands]

theorem write_ok_iff : files.write path chars = .ok after ↔
    ∃ place, files.resolve path = .ok place ∧ files.at? place ≠ some .directory ∧ after = files.put place (.file chars) := by
  unfold write
  cases files.resolve path with
  | error cause => simp [Bind.bind, Except.bind]
  | ok place =>
      cases stands : files.at? place with
      | none => simp [Bind.bind, Except.bind, stands, eq_comm]
      | some item => cases item <;> simp [Bind.bind, Except.bind, stands, eq_comm]

-- Two trees in which all paths lead to the same places.
structure SameWays (files after : Files) : Prop where
  workplace : files.workplace = after.workplace
  directories : ∀ place, files.at? place = some .directory ↔ after.at? place = some .directory

theorem same_ways_trans {later : Files} (first : files.SameWays after) (second : after.SameWays later) : files.SameWays later :=
  ⟨first.workplace.trans second.workplace, fun place => (first.directories place).trans (second.directories place)⟩

theorem resolve_same (same : files.SameWays after) : files.resolve path = .ok place ↔ after.resolve path = .ok place :=
  ⟨resolve_keeps same.workplace fun place => (same.directories place).mp,
    resolve_keeps same.workplace.symm fun place => (same.directories place).mpr⟩

theorem rooted_of_file (files : Files) (stands : files.at? place ≠ some .directory) : place ≠ [] := by
  intro root
  simp [root, at?] at stands

theorem write_ways (written : files.write path chars = .ok after) : files.SameWays after := by
  obtain ⟨place, -, stands, rfl⟩ := write_ok_iff.mp written
  refine ⟨rfl, fun other => ?_⟩
  rw [at_put files (rooted_of_file files stands)]
  by_cases here : other = place
  · simp [here, stands]
  · rw [if_neg here]

theorem read_written (written : files.write path chars = .ok after) (reaches : files.resolve path = .ok place)
    {other content : Text} : after.read other = .ok content ↔
      if files.resolve other = .ok place then content = chars else files.read other = .ok content := by
  have same := write_ways written
  obtain ⟨found, resolved, stands, rfl⟩ := write_ok_iff.mp written
  obtain rfl := Except.ok.inj (reaches.symm.trans resolved)
  simp only [read_ok_iff, ← resolve_same same, at_put files (rooted_of_file files stands)]
  by_cases here : files.resolve other = .ok place
  · simp [here, eq_comm]
  · rw [if_neg here]
    refine exists_congr fun found => and_congr_right fun leads => ?_
    have apart : found ≠ place := fun equal => here (equal ▸ leads)
    rw [if_neg apart]

theorem holds_same {directory : Text} (same : files.SameWays after) : files.Holds directory path ↔ after.Holds directory path := by
  unfold Holds
  simp only [resolve_same same]

theorem written_own (written : files.write path chars = .ok after) : after.read path = .ok chars := by
  obtain ⟨place, reaches, -, -⟩ := write_ok_iff.mp written
  rw [read_written written reaches, if_pos reaches]

section Named

variable {directory name content : Text} (some : directory ≠ []) (proper : Path.Proper name)
  (written : files.write (Path.join directory name) chars = .ok after)

include some proper written

theorem written_other {second : Text} (others : Path.Proper second) (apart : name ≠ second)
    (read : files.read (Path.join directory second) = .ok content) : after.read (Path.join directory second) = .ok content := by
  obtain ⟨place, reaches, -, -⟩ := write_ok_iff.mp written
  obtain ⟨home, leads, -, rfl⟩ := (resolve_join_iff some proper).mp reaches
  rw [read_written written reaches, if_neg]
  · exact read
  · intro there
    obtain ⟨found, directed, -, same⟩ := (resolve_join_iff some others).mp there
    obtain rfl := Except.ok.inj (leads.symm.trans directed)
    exact apart (by simpa using same)

theorem written_outside {other : Text} (outside : ¬ files.Holds directory other) (read : files.read other = .ok content) :
    after.read other = .ok content := by
  obtain ⟨place, reaches, -, -⟩ := write_ok_iff.mp written
  obtain ⟨home, leads, -, rfl⟩ := (resolve_join_iff some proper).mp reaches
  rw [read_written written reaches, if_neg]
  · exact read
  · exact fun there => outside ⟨home, name, leads, there⟩

end Named

def Readable (files : Files) (path : Text) : Prop :=
  ∃ content, files.read path = .ok content

-- All that lies above a place is a directory.
def Rooted (files : Files) (place : Place) : Prop :=
  ∀ above, above <+: place → above ≠ place → files.at? above = some .directory

-- The working directory is a directory, as all above it.
def Grounded (files : Files) : Prop :=
  ∀ place, place <+: files.workplace → files.at? place = some .directory

theorem grounded_same (same : files.SameWays after) (grounded : files.Grounded) : after.Grounded :=
  fun place within => (same.directories place).mp (grounded place (same.workplace ▸ within))

theorem rooted_advance {component : Text} (rooted : files.Rooted place) (stands : files.at? place = some .directory) :
    files.Rooted (advance place component) := by
  have whole : ∀ above, above <+: place → files.at? above = some .directory := by
    intro above within
    by_cases same : above = place
    · exact same ▸ stands
    · exact rooted above within same
  intro above within apart
  unfold advance at within apart
  by_cases stays : component = [] ∨ component = ['.']
  · rw [if_pos stays] at within
    exact whole above within
  · by_cases up : component = ['.', '.']
    · rw [if_neg stays, if_pos up] at within
      exact whole above (within.trans place.dropLast_prefix)
    · rw [if_neg stays, if_neg up] at within apart
      exact whole above ((List.prefix_concat_iff.mp within).resolve_left apart)

theorem walk_rooted {components : List Text} {found : Place} (rooted : files.Rooted place)
    (walked : files.walk place components = .ok found) : files.Rooted found := by
  induction components generalizing place with
  | nil => exact Except.ok.inj walked ▸ rooted
  | cons component rest ih =>
      obtain ⟨stands, later⟩ := walk_cons_iff.mp walked
      exact ih (rooted_advance rooted stands) later

theorem start_rooted (grounded : files.Grounded) (path : Text) : files.Rooted (files.start path) := by
  intro above within apart
  unfold start at within
  by_cases absolute : Path.absolute path = true
  · rw [if_pos absolute, List.prefix_nil] at within
    rw [within]
    rfl
  · rw [if_neg absolute] at within
    exact grounded above within

-- A place that is no directory is called as each path to it is.
theorem fileName_resolved (grounded : files.Grounded) (resolved : files.resolve path = .ok place)
    (stands : files.at? place ≠ some .directory) : Path.fileName? path = place.getLast? := by
  unfold resolve at resolved
  by_cases empty : path = []
  · rw [if_pos empty] at resolved
    cases resolved
  · rw [if_neg empty] at resolved
    rcases List.eq_nil_or_concat (Path.components path) with none | ⟨front, component, way⟩
    · exact absurd none (List.splitOn_ne_nil '/' path)
    · rw [List.concat_eq_append] at way
      rw [way, walk_append_iff] at resolved
      obtain ⟨home, walked, directory, rfl⟩ := resolved
      unfold advance at stands ⊢
      by_cases stays : component = [] ∨ component = ['.']
      · rw [if_pos stays] at stands
        exact absurd directory stands
      · by_cases up : component = ['.', '.']
        · rw [if_neg stays, if_pos up] at stands
          have rooted := walk_rooted (start_rooted grounded path) walked
          by_cases top : home.dropLast = home
          · exact absurd (top.symm ▸ directory) stands
          · exact absurd (rooted home.dropLast home.dropLast_prefix top) stands
        · have named : Path.named component = true := by
            simpa [Path.named] using stays
          rw [if_neg stays, if_neg up, List.getLast?_concat]
          simp [Path.fileName?, way, named, up]

theorem readable_written_iff {target : Text} (grounded : files.Grounded)
    (unlike : Path.fileName? path ≠ Path.fileName? target) (written : files.write target chars = .ok after) :
    after.Readable path ↔ files.Readable path := by
  obtain ⟨place, reaches, stands, -⟩ := write_ok_iff.mp written
  have apart : files.resolve path ≠ .ok place := by
    intro there
    exact unlike ((fileName_resolved grounded there stands).trans (fileName_resolved grounded reaches stands).symm)
  unfold Readable
  simp only [read_written written reaches, if_neg apart]

-- What stood somewhere in the first tree stands there in the second.
structure Extends (files after : Files) : Prop where
  workplace : files.workplace = after.workplace
  keeps : ∀ place item, files.at? place = some item → after.at? place = some item

theorem grounded_extends (grown : files.Extends after) (grounded : files.Grounded) : after.Grounded :=
  fun place within => grown.keeps place .directory (grounded place (grown.workplace ▸ within))

theorem read_extends (grown : files.Extends after) (found : files.read path = .ok chars) : after.read path = .ok chars := by
  obtain ⟨place, resolved, stands⟩ := read_ok_iff.mp found
  exact read_ok_iff.mpr ⟨place, resolve_keeps grown.workplace (fun other => grown.keeps other .directory) resolved,
    grown.keeps place _ stands⟩

theorem create_extends {components : List Text} (created : files.create place components = .ok after) : files.Extends after := by
  induction components generalizing files place with
  | nil =>
      obtain rfl := Except.ok.inj created
      exact ⟨rfl, fun _ _ stands => stands⟩
  | cons component rest ih =>
      unfold create at created
      by_cases stays : component = [] ∨ component = ['.']
      · rw [if_pos stays] at created
        exact ih created
      · by_cases up : component = ['.', '.']
        · rw [if_neg stays, if_pos up] at created
          exact ih created
        · rw [if_neg stays, if_neg up] at created
          cases stands : files.at? (place ++ [component]) with
          | none =>
              simp only [stands] at created
              obtain ⟨workplace, keeps⟩ := ih created
              refine ⟨workplace, fun other item found => keeps other item ?_⟩
              have apart : other ≠ place ++ [component] := fun equal => by simp [← equal, found] at stands
              rw [at_put files (by simp), if_neg apart, found]
          | some item =>
              cases item with
              | directory =>
                  simp only [stands] at created
                  exact ih created
              | file chars => simp [stands] at created
              | undecodable => simp [stands] at created

theorem createDirectories_extends (created : files.createDirectories path = .ok after) : files.Extends after := by
  unfold createDirectories at created
  by_cases there : path = [] ∨ files.isDirectory path
  · rw [if_pos there] at created
    obtain rfl := Except.ok.inj created
    exact ⟨rfl, fun _ _ stands => stands⟩
  · by_cases dotted : endsAtDot path
    · rw [if_neg there, if_pos dotted] at created
      cases created
    · rw [if_neg there, if_neg dotted] at created
      exact create_extends created

end Files
end CodeFence
