import CodeFence.Engine.Builtin
import CodeFence.Proofs.Command.Files
import CodeFence.Proofs.Command.Session

set_option autoImplicit false

namespace CodeFence.Command

theorem accepts_fileName {path other : Text} (extensions : List Text) (same : Path.fileName? path = Path.fileName? other) :
    acceptsExtension extensions path = acceptsExtension extensions other := by
  unfold acceptsExtension Path.extension?
  rw [same]

namespace Session

-- Two runs that nobody can tell apart by their exit, their print and the files they leave.
def SameOutcome (result other : Option Exit × Session) : Prop :=
  result.1 = other.1 ∧ result.2.printed = other.2.printed ∧ ∀ place, result.2.files.at? place = other.2.files.at? place

-- A run that fails where it would have ended well.
def failed (result : Option Exit × Session) : Option Exit × Session :=
  (if result.1 = some .success then some .failure else result.1, result.2)

theorem same_outcome_of_alike {result other : Option Exit × Session} (alike : AlikeAfter result other) :
    SameOutcome result other :=
  ⟨alike.1, alike.2.printed, fun place => congrArg (Files.at? · place) alike.2.files⟩

variable {preprocessor : Preprocessor} {bound : Nat} {outDir? : Option Text} {path : Text} {session : Session}

theorem processFile_rejected (rejected : preprocessor.includes path = false) (readable : session.files.Readable path) :
    processFile system preprocessor bound outDir? path session =
      (.next, { session with logged := session.logged ++ [skipEntry path] }) := by
  obtain ⟨content, read⟩ := readable
  rcases @processFile_cases preprocessor bound outDir? path session with ⟨⟨cause, failed⟩, -⟩ | ⟨-, -, ⟨-, went⟩ | ⟨included, -⟩ |
    ⟨-, -, included, -⟩⟩
  · cases read.symm.trans failed
  · exact went
  · cases rejected.symm.trans included
  · cases rejected.symm.trans included

theorem processFile_unread (unread : ¬ session.files.Readable path) :
    processFile system preprocessor bound outDir? path session = (.stopped, session) := by
  rcases @processFile_cases preprocessor bound outDir? path session with ⟨-, went⟩ | ⟨content, read, -⟩
  · exact went
  · exact absurd ⟨content, read⟩ unread

section Named

variable (named : ∀ path other, Path.fileName? path = Path.fileName? other →
  preprocessor.includes path = preprocessor.includes other)

include named

-- What is written bears the name of an accepted file, so a rejected one can be read before if it can be read after it.
theorem rejected_written {files after : Files} {other name outDir markup : Text} (grounded : files.Grounded)
    (rejected : preprocessor.includes path = false) (included : preprocessor.includes other = true)
    (called : Path.fileName? other = some name) (written : files.write (Path.join outDir name) markup = .ok after) :
    after.Readable path ↔ files.Readable path := by
  refine Files.readable_written_iff grounded (fun same => ?_) written
  rw [Path.fileName_join (Path.fileName_proper called), ← called] at same
  rw [named path other same, included] at rejected
  cases rejected

theorem processFile_kept (grounded : session.files.Grounded) (other : Text) :
    (processFile system preprocessor bound outDir? other session).2.files.Grounded ∧
      ∀ path, preprocessor.includes path = false →
        ((processFile system preprocessor bound outDir? other session).2.files.Readable path ↔ session.files.Readable path) := by
  rcases @processFile_written preprocessor bound outDir? other session with
    same | ⟨outDir, name, content, report, -, included, -, -, called, written⟩
  · rw [same]
    exact ⟨grounded, fun _ _ => Iff.rfl⟩
  · exact ⟨Files.grounded_same (Files.write_ways written) grounded,
      fun path rejected => rejected_written named grounded rejected included called written⟩

theorem processFiles_kept (grounded : session.files.Grounded) (paths : List Text) (rejected : preprocessor.includes path = false) :
    (processFiles system preprocessor bound outDir? paths session).2.files.Readable path ↔ session.files.Readable path := by
  refine (@processFiles_invariant preprocessor bound outDir?
    (fun files => files.Grounded ∧ (files.Readable path ↔ session.files.Readable path)) ?_ paths session ⟨grounded, Iff.rfl⟩).2
  rintro files other name outDir markup after ⟨sound, same⟩ included called written
  exact ⟨Files.grounded_same (Files.write_ways written) sound,
    (rejected_written named sound rejected included called written).trans same⟩

theorem processFiles_filter {paths : List Text} {other : Session} (grounded : session.files.Grounded) (alike : session.Alike other)
    (readable : ∀ path ∈ paths, preprocessor.includes path = false → session.files.Readable path) :
    AlikeAfter (processFiles system preprocessor bound outDir? paths session)
      (processFiles system preprocessor bound outDir? (paths.filter preprocessor.includes) other) := by
  induction paths generalizing session other with
  | nil => exact ⟨rfl, alike⟩
  | cons path rest ih =>
      rw [List.forall_mem_cons] at readable
      by_cases accepted : preprocessor.includes path = true
      · rw [List.filter_cons_of_pos accepted]
        have kept := @processFile_kept preprocessor bound outDir? _ named grounded path
        obtain ⟨same, left⟩ := @processFile_alike preprocessor bound outDir? _ _ alike path
        rcases went : processFile system preprocessor bound outDir? path session with ⟨progress, next⟩
        rcases goes : processFile system preprocessor bound outDir? path other with ⟨progress', next'⟩
        rw [went] at kept same left
        rw [goes] at same left
        obtain rfl : progress = progress' := same
        cases progress with
        | next =>
            rw [processFiles_next went, processFiles_next goes]
            exact ih kept.1 left fun later member rejected => (kept.2 later rejected).mpr (readable.2 later member rejected)
        | stopped =>
            rw [processFiles_stopped went, processFiles_stopped goes]
            exact ⟨rfl, left⟩
        | unfinished =>
            rw [processFiles_unfinished went, processFiles_unfinished goes]
            exact ⟨rfl, left⟩
      · have rejected : preprocessor.includes path = false := Bool.eq_false_iff.mpr accepted
        rw [List.filter_cons_of_neg accepted, processFiles_next (processFile_rejected rejected (readable.1 rejected))]
        exact ih grounded ⟨alike.files, alike.printed⟩ readable.2

-- The first rejected file that cannot be read is the last one that a run comes to.
theorem processFiles_unread {first rest : List Text} (grounded : session.files.Grounded)
    (readable : ∀ other ∈ first, preprocessor.includes other = false → session.files.Readable other)
    (rejected : preprocessor.includes path = false) (unread : ¬ session.files.Readable path) :
    AlikeAfter (processFiles system preprocessor bound outDir? (first ++ path :: rest) session)
      (failed (processFiles system preprocessor bound outDir? (first.filter preprocessor.includes) session)) := by
  obtain ⟨same, left⟩ := @processFiles_filter preprocessor bound outDir? _ named first session grounded ⟨rfl, rfl⟩ readable
  have kept := @processFiles_kept preprocessor bound outDir? _ _ named grounded first rejected
  rw [processFiles_append]
  rcases went : processFiles system preprocessor bound outDir? first session with ⟨exit?, reached⟩
  rw [went] at same left kept
  by_cases success : exit? = some .success
  · rw [if_pos success, processFiles_stopped (processFile_unread fun read => unread (kept.mp read))]
    exact ⟨by rw [failed, ← same, if_pos success], left⟩
  · rw [if_neg success]
    exact ⟨by rw [failed, ← same, if_neg success], left⟩

end Named

theorem opens_grounded {builtin : Except Fault Library} {arguments : Arguments} {config : Config} {opened : Session}
    (opens : Opens builtin arguments session config preprocessor opened) (grounded : session.files.Grounded) :
    opened.files.Grounded := by
  cases asked : arguments.outDir? with
  | none =>
      have prepared := opens.prepared
      rw [prepareOutDir_run, asked] at prepared
      obtain rfl : session = opened := (Prod.mk.inj prepared).2
      exact grounded
  | some outDir => exact Files.grounded_extends (Files.createDirectories_extends (opens_directory opens asked)) grounded

theorem opens_named {builtin : Except Fault Library} {arguments : Arguments} {config : Config} {opened : Session}
    (opens : Opens builtin arguments session config preprocessor opened) (path other : Text)
    (same : Path.fileName? path = Path.fileName? other) : preprocessor.includes path = preprocessor.includes other := by
  rw [filePreprocessor_includes opens.built, filePreprocessor_includes opens.built]
  exact accepts_fileName arguments.accepted same

theorem failed_not_success (result : Option Exit × Session) : (failed result).1 ≠ some .success := by
  unfold failed
  by_cases success : result.1 = some .success
  · simp [success]
  · simp [success]

end Session

def acceptedRun (builtin : Except Fault Library) (bound : Nat) (arguments : Arguments) (paths : List Text) (session : Session) :
    Option Exit × Session :=
  runWith Session.system builtin bound { arguments with files := paths.filter (acceptsExtension arguments.accepted) } session

-- The files as they are when the output directory is there.
def openedFiles (arguments : Arguments) (session : Session) : Files :=
  (prepareOutDir Session.system arguments.outDir? session).2.files

section Runs

variable {builtin : Except Fault Library} {bound : Nat} {arguments : Arguments} {session : Session}

theorem acceptedRun_opened {config : Config} {preprocessor : Preprocessor} {opened : Session}
    (opens : Session.Opens builtin arguments session config preprocessor opened) (paths : List Text) :
    acceptedRun builtin bound arguments paths session =
      processFiles Session.system preprocessor bound arguments.outDir? (paths.filter preprocessor.includes) opened := by
  have filtered : Session.Opens builtin { arguments with files := paths.filter (acceptsExtension arguments.accepted) }
      session config preprocessor opened := ⟨opens.configured, opens.pages, opens.built, opens.prepared⟩
  rw [acceptedRun, Session.runWith_opened filtered, funext (Session.filePreprocessor_includes opens.built)]

theorem rejected_readable (grounded : session.files.Grounded)
    (given : arguments.stylesheet = true ∨ ∀ path ∈ arguments.files, acceptsExtension arguments.accepted path = false →
      (openedFiles arguments session).Readable path) :
    Session.SameOutcome (runWith Session.system builtin bound arguments session)
      (acceptedRun builtin bound arguments arguments.files session) := by
  rcases Session.runWith_cases builtin arguments session with ⟨config, preprocessor, opened, opens⟩ | ⟨result, closed, -⟩
  · have readable := given.resolve_left (Bool.eq_false_iff.mp opens.pages)
    rw [openedFiles, opens.prepared] at readable
    rw [Session.runWith_opened opens, acceptedRun_opened opens]
    refine Session.same_outcome_of_alike (Session.processFiles_filter (Session.opens_named opens)
      (Session.opens_grounded opens grounded) ⟨rfl, rfl⟩ fun path member rejected => readable path member ?_)
    rwa [Session.filePreprocessor_includes opens.built] at rejected
  · rw [acceptedRun, closed, closed]
    exact ⟨rfl, rfl, fun _ => rfl⟩

theorem rejected_unread {first rest : List Text} {path : Text} (grounded : session.files.Grounded)
    (pages : arguments.stylesheet = false) (split : arguments.files = first ++ path :: rest)
    (readable : ∀ other ∈ first, acceptsExtension arguments.accepted other = false →
      (openedFiles arguments session).Readable other)
    (rejected : acceptsExtension arguments.accepted path = false) (unread : ¬ (openedFiles arguments session).Readable path) :
    Session.SameOutcome (runWith Session.system builtin bound arguments session)
      (Session.failed (acceptedRun builtin bound arguments first session)) := by
  rcases Session.runWith_cases builtin arguments session with ⟨config, preprocessor, opened, opens⟩ | ⟨result, closed, fails⟩
  · rw [openedFiles, opens.prepared] at readable unread
    simp only [← Session.filePreprocessor_includes opens.built] at readable rejected
    rw [Session.runWith_opened opens, acceptedRun_opened opens, split]
    exact Session.same_outcome_of_alike (Session.processFiles_unread (Session.opens_named opens)
      (Session.opens_grounded opens grounded) readable rejected unread)
  · rw [acceptedRun, closed, closed]
    refine ⟨?_, rfl, fun _ => rfl⟩
    rw [Session.failed, fails pages, if_neg (by decide)]

end Runs

theorem rejected_unseen_iff (builtin : Except Fault Library) (bound : Nat) (arguments : Arguments) (session : Session)
    (grounded : session.files.Grounded) :
    let readable (path : Text) := acceptsExtension arguments.accepted path = false → (openedFiles arguments session).Readable path
    let whole := runWith Session.system builtin bound arguments session
    let accepted (paths : List Text) := acceptedRun builtin bound arguments paths session
    (arguments.stylesheet = true ∨ (∀ path ∈ arguments.files, readable path) →
      Session.SameOutcome whole (accepted arguments.files)) ∧
    (arguments.stylesheet = false → (accepted arguments.files).1 = some .success →
      (Session.SameOutcome whole (accepted arguments.files) ↔ ∀ path ∈ arguments.files, readable path)) ∧
    (arguments.stylesheet = false → ∀ first path rest, arguments.files = first ++ path :: rest →
      (∀ other ∈ first, readable other) → ¬ readable path → Session.SameOutcome whole (Session.failed (accepted first))) := by
  intro readable whole accepted
  have seen : arguments.stylesheet = false → ∀ first path rest, arguments.files = first ++ path :: rest →
      (∀ other ∈ first, readable other) → ¬ readable path → Session.SameOutcome whole (Session.failed (accepted first)) := by
    intro pages first path rest split before unread
    obtain ⟨rejected, unread⟩ := Classical.not_imp.mp unread
    exact rejected_unread grounded pages split before rejected unread
  refine ⟨rejected_readable grounded, fun pages success => ⟨fun same => ?_, fun all => rejected_readable grounded (Or.inr all)⟩, seen⟩
  classical
  cases found : arguments.files.find? (fun path => ¬ readable path) with
  | none =>
      intro path member
      simpa using List.find?_eq_none.mp found path member
  | some path =>
      obtain ⟨unread, first, rest, split, before⟩ := List.find?_eq_some_iff_append.mp found
      have stopped := seen pages first path rest split (fun other member => by simpa using before other member)
        (of_decide_eq_true unread)
      exact absurd (stopped.1.symm.trans (same.1.trans success)) (Session.failed_not_success _)

theorem rejected_unseen_between :
    let items := [(["a.md".toList], Item.file "A".toList), (["b.txt".toList], .file "B".toList),
      (["c.bin".toList], .undecodable), (["d.md".toList], .file "D".toList)]
    let session : Session := { files := { items, workplace := [] } }
    let builtin : Except Fault Library := .ok Builtin.registry.library
    let read : Arguments := { files := ["a.md".toList, "b.txt".toList, "d.md".toList] }
    let unread : Arguments := { files := ["a.md".toList, "b.txt".toList, "c.bin".toList, "d.md".toList] }
    Session.SameOutcome (runWith Session.system builtin 1 read session) (acceptedRun builtin 1 read read.files session) ∧
      ¬ Session.SameOutcome (runWith Session.system builtin 1 unread session)
        (acceptedRun builtin 1 unread unread.files session) ∧
      Session.SameOutcome (runWith Session.system builtin 1 unread session)
        (Session.failed (acceptedRun builtin 1 unread ["a.md".toList, "b.txt".toList] session)) := by
  intro items session builtin read unread
  have grounded : session.files.Grounded := fun place within => List.prefix_nil.mp within ▸ rfl
  have plain (arguments : Arguments) (none : arguments.outDir? = none) : (openedFiles arguments session).Readable "b.txt".toList := by
    rw [openedFiles, none]
    exact ⟨"B".toList, by decide⟩
  have missing : ¬ (openedFiles unread session).Readable "c.bin".toList := fun ⟨_, found⟩ => by cases found
  have success : (acceptedRun builtin 1 unread unread.files session).1 = some .success := by decide +kernel
  obtain ⟨same, -, -⟩ := rejected_unseen_iff builtin 1 read session grounded
  obtain ⟨-, agree, stops⟩ := rejected_unseen_iff builtin 1 unread session grounded
  refine ⟨same (Or.inr ?_), fun alike => missing ((agree rfl success).mp alike _ (by decide) (by decide)),
    stops rfl ["a.md".toList, "b.txt".toList] "c.bin".toList ["d.md".toList] rfl ?_ fun readable => missing (readable (by decide))⟩
  · intro path member rejected
    simp only [read, List.mem_cons, List.not_mem_nil, or_false] at member
    rcases member with rfl | rfl | rfl
    · cases rejected
    · exact plain read rfl
    · cases rejected
  · intro path member rejected
    simp only [List.mem_cons, List.not_mem_nil, or_false] at member
    rcases member with rfl | rfl
    · cases rejected
    · exact plain unread rfl

theorem undecodable_rejected_seen :
    let files : Files := { items := [(["a.md".toList], .file "A".toList), (["b.txt".toList], .undecodable)], workplace := [] }
    let builtin : Except Fault Library := .ok Builtin.registry.library
    let whole : Arguments := { files := ["a.md".toList, "b.txt".toList] }
    (runWith Session.system builtin 1 whole { files }).1 = some .failure ∧
      (acceptedRun builtin 1 whole whole.files { files }).1 = some .success ∧
      ¬ Session.SameOutcome (runWith Session.system builtin 1 whole { files })
        (acceptedRun builtin 1 whole whole.files { files }) := by
  intro files builtin whole
  have failed : (runWith Session.system builtin 1 whole { files }).1 = some .failure := by decide +kernel
  have success : (acceptedRun builtin 1 whole whole.files { files }).1 = some .success := by decide +kernel
  refine ⟨failed, success, fun same => ?_⟩
  have equal : some Exit.failure = some .success := failed.symm.trans (same.1.trans success)
  cases equal

end CodeFence.Command
