import CodeFence.Engine.Builtin
import CodeFence.Proofs.Command.Files
import CodeFence.Proofs.Command.Session
import Mathlib.Data.List.Induction

set_option autoImplicit false

namespace CodeFence.Command

namespace Arguments

variable {given next : Arguments} {value : Text}

theorem addFile_outDir (named : given.outDir? ≠ some []) (added : given.addFile value = some next) : next.outDir? ≠ some [] := by
  unfold addFile at added
  by_cases empty : value.isEmpty = true
  · simp [empty] at added
  · rw [if_neg empty] at added
    obtain rfl := Option.some.inj added
    exact named

theorem setValue_outDir {found : Switch} (named : given.outDir? ≠ some []) (set : given.setValue value found = some next) :
    next.outDir? ≠ some [] := by
  cases found with
  | config =>
      by_cases refused : (value.isEmpty || given.config?.isSome) = true
      · simp [setValue, refused] at set
      · simp only [setValue, if_neg refused] at set
        obtain rfl := Option.some.inj set
        exact named
  | outDir =>
      by_cases refused : (value.isEmpty || given.outDir?.isSome) = true
      · simp [setValue, refused] at set
      · simp only [setValue, if_neg refused] at set
        obtain rfl := Option.some.inj set
        rintro ⟨⟩
        exact refused rfl
  | extension =>
      obtain rfl := Option.some.inj set
      exact named
  | stylesheet => cases set
  | help => cases set
  | version => cases set

theorem read_outDir {rest : List Argument} {arguments : Arguments} (named : given.outDir? ≠ some [])
    (read : given.read rest = .run arguments) : arguments.outDir? ≠ some [] := by
  fun_induction Arguments.read given rest with
  | case1 given => exact Usage.run.inj read ▸ named
  | case3 given rest ih => exact ih named read
  | case5 given path rest next added ih => exact ih (addFile_outDir named added) read
  | case7 given found value rest next set ih => exact ih (setValue_outDir named set) read
  | case11 given rest first ih => exact ih named read
  | case13 given found value rest _ _ _ next set ih => exact ih (setValue_outDir named set) read
  | case2 | case4 | case6 | case8 | case9 | case10 | case12 | case14 => cases read

end Arguments

theorem usage_outDir {args : List Text} {arguments : Arguments} (read : usage args = .run arguments) :
    arguments.outDir? ≠ some [] :=
  Arguments.read_outDir (by simp) read

def markup? (preprocessor : Preprocessor) (bound : Nat) (files : Files) (path : Text) : Option Text :=
  (files.read path).toOption.bind fun content => (preprocessor.run bound 0 content path).map Report.content

-- The output directory holds the markup of a file under its name.
def Kept (preprocessor : Preprocessor) (bound : Nat) (outDir : Text) (before after : Files) (path : Text) : Prop :=
  ∃ name markup, Path.fileName? path = some name ∧ markup? preprocessor bound before path = some markup ∧
    after.read (Path.join outDir name) = .ok markup

-- No accepted file of the same name comes behind this one.
def Last (preprocessor : Preprocessor) (paths : List Text) (path : Text) : Prop :=
  ∃ first rest, paths = first ++ path :: rest ∧ preprocessor.includes path = true ∧
    ∀ other ∈ rest, preprocessor.includes other = true → Path.fileName? other ≠ Path.fileName? path

-- What holds after some of the files, as long as no file stands in the output directory.
structure Delivered (preprocessor : Preprocessor) (bound : Nat) (outDir : Text) (before after : Files) (paths : List Text) : Prop where
  ways : before.SameWays after
  inputs : ∀ path content, before.read path = .ok content → ¬ before.Holds outDir path → after.read path = .ok content
  outputs : ∀ path, Last preprocessor paths path → Kept preprocessor bound outDir before after path

variable {preprocessor : Preprocessor} {bound : Nat} {outDir path content : Text} {paths : List Text} {before after : Files}

theorem exists_last (member : path ∈ paths) (included : preprocessor.includes path = true) :
    ∃ other ∈ paths, Last preprocessor paths other ∧ Path.fileName? other = Path.fileName? path := by
  induction paths generalizing path with
  | nil => cases member
  | cons head rest ih =>
      by_cases again : ∃ other ∈ rest, preprocessor.includes other = true ∧ Path.fileName? other = Path.fileName? path
      · obtain ⟨other, behind, accepted, same⟩ := again
        obtain ⟨final, found, ⟨first, later, rfl, last⟩, named⟩ := ih behind accepted
        exact ⟨final, List.mem_cons_of_mem head found, ⟨head :: first, later, rfl, last⟩, named.trans same⟩
      · have here : path = head := by
          rcases List.mem_cons.mp member with here | behind
          · exact here
          · exact absurd ⟨path, behind, included, rfl⟩ again
        refine ⟨path, member, ⟨[], rest, congrArg (· :: rest) here.symm, included, ?_⟩, rfl⟩
        exact fun other behind accepted same => again ⟨other, behind, accepted, same⟩

theorem last_concat {other : Text} (last : Last preprocessor (paths ++ [path]) other) :
    (other = path ∧ preprocessor.includes path = true) ∨
      (Last preprocessor paths other ∧ (preprocessor.includes path = true → Path.fileName? path ≠ Path.fileName? other)) := by
  obtain ⟨first, rest, split, included, alone⟩ := last
  rcases List.eq_nil_or_concat rest with rfl | ⟨init, final, rfl⟩
  · obtain ⟨-, same⟩ := List.append_inj' split rfl
    obtain rfl : path = other := (List.cons.inj same).1
    exact Or.inl ⟨rfl, included⟩
  · rw [List.concat_eq_append, ← List.cons_append, ← List.append_assoc] at split
    obtain ⟨rfl, same⟩ := List.append_inj' split rfl
    obtain rfl : path = final := (List.cons.inj same).1
    rw [List.concat_eq_append] at alone
    exact Or.inr ⟨⟨first, init, rfl, included, fun other held => alone other (List.mem_append_left _ held)⟩,
      alone path (List.mem_append_right _ List.mem_cons_self)⟩

theorem markup_read (read : before.read path = .ok content) :
    markup? preprocessor bound before path = (preprocessor.run bound 0 content path).map Report.content := by
  rw [markup?, read]
  rfl

theorem delivered_step {reached session : Session} (some : outDir ≠ [])
    (delivered : Delivered preprocessor bound outDir before reached.files paths)
    (read : before.read path = .ok content) (apart : ¬ before.Holds outDir path)
    (processed : processFile Session.system preprocessor bound (Option.some outDir) path reached = (.next, session)) :
    Delivered preprocessor bound outDir before session.files (paths ++ [path]) := by
  obtain ⟨ways, inputs, outputs⟩ := delivered
  obtain ⟨found, again, ⟨rejected, kept⟩ | ⟨report, name, included, ran, named, written⟩⟩ := Session.processFile_next processed
  · rw [kept]
    refine ⟨ways, inputs, fun other last => ?_⟩
    rcases last_concat last with ⟨rfl, included⟩ | ⟨earlier, -⟩
    · rw [rejected] at included
      cases included
    · exact outputs other earlier
  · obtain rfl := Except.ok.inj (again.symm.trans (inputs path content read apart))
    have proper := Path.fileName_proper named
    refine ⟨Files.same_ways_trans ways (Files.write_ways written), fun other chars stands outside => ?_, fun other last => ?_⟩
    · have apart : ¬ reached.files.Holds outDir other := fun held => outside ((Files.holds_same ways).mpr held)
      exact Files.written_outside some proper written apart (inputs other chars stands outside)
    · rcases last_concat last with ⟨rfl, -⟩ | ⟨earlier, unlike⟩
      · have marked : markup? preprocessor bound before other = Option.some report.content := by
          rw [markup_read read, ran]
          rfl
        exact ⟨name, report.content, named, marked, Files.written_own written⟩
      · obtain ⟨second, markup, titled, marked, stands⟩ := outputs other earlier
        have unequal : name ≠ second := fun same => unlike included (named.trans (same ▸ titled.symm))
        exact ⟨second, markup, titled, marked, Files.written_other some proper written (Path.fileName_proper titled) unequal stands⟩

theorem delivered_run {opened session : Session} (some : outDir ≠ [])
    (readable : ∀ path ∈ paths, ∃ content, opened.files.read path = .ok content)
    (apart : ∀ path ∈ paths, ¬ opened.files.Holds outDir path)
    (finished : processFiles Session.system preprocessor bound (Option.some outDir) paths opened = (Option.some .success, session)) :
    Delivered preprocessor bound outDir opened.files session.files paths := by
  induction paths using List.reverseRecOn generalizing session with
  | nil =>
      obtain rfl : opened = session := (Prod.mk.inj finished).2
      exact ⟨⟨rfl, fun _ => Iff.rfl⟩, fun _ _ read _ => read, fun path ⟨first, rest, split, _⟩ => by simp at split⟩
  | append_singleton paths path ih =>
      obtain ⟨reached, before, last⟩ := Session.processFiles_concat finished
      rw [List.forall_mem_append] at readable apart
      obtain ⟨content, read⟩ := readable.2 path List.mem_cons_self
      exact delivered_step some (ih readable.1 apart.1 before) read (apart.2 path List.mem_cons_self) last

theorem outputs_kept_iff {builtin : Except Fault Library} {args : List Text} {arguments : Arguments} {before after : Session}
    (read : usage args = .run arguments) (asked : arguments.outDir? = some outDir) (pages : arguments.stylesheet = false)
    (readable : ∀ path ∈ arguments.files, ∃ content, before.files.read path = .ok content)
    (apart : ∀ created, before.files.createDirectories outDir = .ok created →
      ∀ path ∈ arguments.files, ¬ created.Holds outDir path)
    (finished : Session.run builtin bound args before = (Option.some .success, after)) :
    ∃ config preprocessor, readConfig Session.system arguments.config? before = (.ok config, before) ∧
      filePreprocessor config builtin arguments.accepted = .ok preprocessor ∧
      (∀ path, Last preprocessor arguments.files path → Kept preprocessor bound outDir before.files after.files path) ∧
      ((∀ path ∈ arguments.files, acceptsExtension arguments.accepted path = true →
          Kept preprocessor bound outDir before.files after.files path) ↔
        ∀ path ∈ arguments.files, ∀ other ∈ arguments.files, acceptsExtension arguments.accepted path = true →
          acceptsExtension arguments.accepted other = true → Path.fileName? path = Path.fileName? other →
            markup? preprocessor bound before.files path = markup? preprocessor bound before.files other) := by
  rw [Session.run_runWith read] at finished
  obtain ⟨config, preprocessor, opened, opens⟩ := Session.opens_of_success pages finished
  have includes (path : Text) : preprocessor.includes path = acceptsExtension arguments.accepted path :=
    Session.filePreprocessor_includes opens.built path
  refine ⟨config, preprocessor, opens.configured, opens.built, ?_⟩
  have some : outDir ≠ [] := fun empty => usage_outDir read (empty ▸ asked)
  have made := Session.opens_directory opens asked
  have grown := Files.createDirectories_extends made
  have same (path : Text) (member : path ∈ arguments.files) :
      markup? preprocessor bound opened.files path = markup? preprocessor bound before.files path := by
    obtain ⟨content, stood⟩ := readable path member
    rw [markup_read stood, markup_read (Files.read_extends grown stood)]
  rw [Session.runWith_opened opens, asked] at finished
  have delivered := delivered_run some
    (fun path member => (readable path member).imp fun _ stood => Files.read_extends grown stood)
    (apart opened.files made) finished
  have kept (path : Text) (last : Last preprocessor arguments.files path) :
      Kept preprocessor bound outDir before.files after.files path := by
    obtain ⟨name, markup, named, marked, stands⟩ := delivered.outputs path last
    obtain ⟨first, rest, split, -⟩ := last
    rw [same path (split ▸ List.mem_append_right first List.mem_cons_self)] at marked
    exact ⟨name, markup, named, marked, stands⟩
  refine ⟨kept, ?_⟩
  simp only [← includes]
  constructor
  · intro all path member other held first second alike
    obtain ⟨name, markup, named, marked, stands⟩ := all path member first
    obtain ⟨title, text, titled, written, found⟩ := all other held second
    obtain rfl : name = title := Option.some.inj (named.symm.trans (alike.trans titled))
    obtain rfl : markup = text := Except.ok.inj (stands.symm.trans found)
    exact marked.trans written.symm
  · intro agree path member included
    obtain ⟨other, held, last, alike⟩ := @exists_last preprocessor _ _ member included
    obtain ⟨name, markup, named, marked, stands⟩ := kept other last
    obtain ⟨-, -, -, accepted, -⟩ := last
    exact ⟨name, markup, alike ▸ named, (agree path member other held included accepted alike.symm).trans marked, stands⟩

theorem outputs_kept_apart :
    let items := [(["a".toList], Item.directory), (["a".toList, "p.md".toList], .file "A".toList),
      (["b".toList], .directory), (["b".toList, "q.md".toList], .file "B".toList), (["b".toList, "r.txt".toList], .file "C".toList)]
    let before : Session := { files := { items, workplace := [] } }
    let builtin : Except Fault Library := .ok Builtin.registry.library
    let paths := ["a/p.md".toList, "b/q.md".toList, "b/r.txt".toList]
    ∃ preprocessor after, filePreprocessor {} builtin ["md".toList, "svx".toList] = .ok preprocessor ∧
      Session.run builtin 1 ("-o".toList :: "out".toList :: paths) before = (some .success, after) ∧
      Kept preprocessor 1 "out".toList before.files after.files "a/p.md".toList ∧
      Kept preprocessor 1 "out".toList before.files after.files "b/q.md".toList := by
  intro items before builtin paths
  have read : usage ("-o".toList :: "out".toList :: paths) = .run { files := paths, outDir? := some "out".toList } := by decide
  have readable : ∀ path ∈ paths, ∃ content, before.files.read path = .ok content := by
    simp only [paths, List.forall_mem_cons]
    exact ⟨⟨"A".toList, by decide⟩, ⟨"B".toList, by decide⟩, ⟨"C".toList, by decide⟩, fun _ held => nomatch held⟩
  have apart : ∀ created, before.files.createDirectories "out".toList = .ok created →
      ∀ path ∈ paths, ¬ created.Holds "out".toList path := by
    rintro created made path member ⟨home, name, directory, leads⟩
    obtain rfl : before.files.put ["out".toList] .directory = created := Except.ok.inj made
    obtain rfl : ["out".toList] = home := Except.ok.inj directory
    have others : ∀ path ∈ paths,
        ((before.files.put ["out".toList] .directory).resolve path).toOption.bind List.head? ≠ some "out".toList := by decide
    exact others path member (by rw [leads]; rfl)
  have success : (Session.run builtin 1 ("-o".toList :: "out".toList :: paths) before).1 = some .success := by decide +kernel
  cases finished : Session.run builtin 1 ("-o".toList :: "out".toList :: paths) before with
  | mk exit? after =>
  rw [finished] at success
  obtain rfl : exit? = some .success := success
  obtain ⟨config, preprocessor, configured, built, -, kept⟩ := outputs_kept_iff read rfl rfl readable apart finished
  obtain rfl : ({} : Config) = config := Except.ok.inj (Prod.mk.inj configured).1
  have unlike : ∀ path ∈ paths, ∀ other ∈ paths, Path.fileName? path = Path.fileName? other → path = other := by decide
  have all := kept.mpr fun path member other held _ _ same => congrArg _ (unlike path member other held same)
  exact ⟨preprocessor, after, built, rfl, all _ (by decide) (by decide), all _ (by decide) (by decide)⟩

-- Two files of one name: the second is written over the first.
theorem outputs_overwritten :
    let items := [(["a".toList], Item.directory), (["a".toList, "p.md".toList], .file "A".toList),
      (["b".toList], .directory), (["b".toList, "p.md".toList], .file "B".toList)]
    let before : Session := { files := { items, workplace := [] } }
    let builtin : Except Fault Library := .ok Builtin.registry.library
    let args := ["-o".toList, "out".toList, "a/p.md".toList, "b/p.md".toList]
    before.files.at? ["out".toList] = none ∧
      ∃ preprocessor after, filePreprocessor {} builtin ["md".toList, "svx".toList] = .ok preprocessor ∧
        Session.run builtin 1 args before = (some .success, after) ∧
        markup? preprocessor 1 before.files "a/p.md".toList = some "A".toList ∧
        markup? preprocessor 1 before.files "b/p.md".toList = some "B".toList ∧
        after.files.read "out/p.md".toList = .ok "B".toList ∧
        ¬ Kept preprocessor 1 "out".toList before.files after.files "a/p.md".toList := by
  intro items before builtin args
  let preprocessor : Preprocessor := { ({} : Config).preprocessor Builtin.registry.library.engine with
    include? := some (acceptsExtension ["md".toList, "svx".toList])
    logged := true }
  have first : markup? preprocessor 1 before.files "a/p.md".toList = some "A".toList := by decide +kernel
  have second : markup? preprocessor 1 before.files "b/p.md".toList = some "B".toList := by decide +kernel
  have success : (Session.run builtin 1 args before).1 = some .success := by decide +kernel
  have left : (Session.run builtin 1 args before).2.files.read "out/p.md".toList = .ok "B".toList := by decide +kernel
  cases finished : Session.run builtin 1 args before with
  | mk exit? after =>
  rw [finished] at success left
  obtain rfl : exit? = some .success := success
  refine ⟨rfl, preprocessor, after, rfl, rfl, first, second, left, ?_⟩
  rintro ⟨name, markup, named, marked, stands⟩
  obtain rfl : "p.md".toList = name := Option.some.inj named
  obtain rfl : "A".toList = markup := Option.some.inj (first.symm.trans marked)
  have same : "B".toList = "A".toList := Except.ok.inj (left.symm.trans stands)
  exact absurd same (by decide)

end CodeFence.Command
