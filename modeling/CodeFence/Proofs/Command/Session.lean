import CodeFence.Command.Session
import CodeFence.Proofs.Config
import CodeFence.Proofs.Document.Rounds

set_option autoImplicit false

namespace CodeFence.Command

namespace Session

variable {preprocessor : Preprocessor} {bound : Nat} {outDir? : Option Text}

theorem bind_run {α β : Type} (first : StateM Session α) (next : α → StateM Session β) (session : Session) :
    (first >>= next) session = next (first session).1 (first session).2 := rfl

theorem logShown_run (entries : List Entry) (session : Session) : logShown system entries session =
    ((), { session with logged := session.logged ++ entries.filter (·.level.shown) }) := by
  induction entries generalizing session with
  | nil =>
      rw [List.filter_nil, List.append_nil]
      rfl
  | cons entry rest ih =>
      by_cases shown : entry.level.shown = true
      · have first : logShown system (entry :: rest) session =
            logShown system rest { session with logged := session.logged ++ [entry] } := by
          rw [logShown, if_pos shown]
          rfl
        rw [first, ih]
        simp [shown]
      · have first : logShown system (entry :: rest) session = logShown system rest session := by
          rw [logShown, if_neg shown]
        rw [first, ih]
        simp [shown]

theorem deliver_run (path markup : Text) (session : Session) : deliver system outDir? path markup session =
    match outDir? with
    | none => (true, { session with printed := session.printed ++ (markup ++ ['\n']) })
    | some outDir =>
        match Path.fileName? path with
        | none => (false, session)
        | some name =>
            match session.files.write (Path.join outDir name) markup with
            | .error _ => (false, session)
            | .ok files => (true, { session with files }) := by
  cases outDir? with
  | none => rfl
  | some outDir =>
      cases named : Path.fileName? path with
      | none =>
          simp only [deliver, named]
          rfl
      | some name =>
          have step : system.write (Path.join outDir name) markup session =
              change (fun files => files.write (Path.join outDir name) markup) session := rfl
          simp only [deliver, named]
          rw [bind_run, step, change]
          cases session.files.write (Path.join outDir name) markup with
          | error cause => rfl
          | ok files => rfl

-- A file is written in the output directory or nothing has changed there.
theorem deliver_cases (outDir path markup : Text) (session : Session) :
    ((deliver system (some outDir) path markup session).1 = false ∧
        (deliver system (some outDir) path markup session).2.files = session.files) ∨
      ∃ name, Path.fileName? path = some name ∧ (deliver system (some outDir) path markup session).1 = true ∧
        session.files.write (Path.join outDir name) markup = .ok (deliver system (some outDir) path markup session).2.files := by
  rw [deliver_run]
  cases named : Path.fileName? path with
  | none => exact Or.inl ⟨rfl, rfl⟩
  | some name =>
      cases written : session.files.write (Path.join outDir name) markup with
      | error cause =>
          simp only [written]
          exact Or.inl ⟨trivial, trivial⟩
      | ok files =>
          simp only [written]
          exact Or.inr ⟨name, rfl, trivial, written⟩

theorem processFile_run (path : Text) (session : Session) : processFile system preprocessor bound outDir? path session =
    match session.files.read path with
    | .error _ => (.stopped, session)
    | .ok content =>
        match preprocessor.submit bound 0 content path with
        | none => (.unfinished, session)
        | some .excluded => (.next, { session with logged := session.logged ++ [skipEntry path] })
        | some (.processed report) =>
            let heard := { session with logged := session.logged ++ report.log.filter (·.level.shown) }
            (.ofDone (deliver system outDir? path report.content heard).1, (deliver system outDir? path report.content heard).2) := by
  have step : system.read path session = (session.files.read path, session) := rfl
  rw [processFile, bind_run, step]
  cases session.files.read path with
  | error cause => rfl
  | ok content =>
      cases submitted : preprocessor.submit bound 0 content path with
      | none =>
          simp only [submitted]
          rfl
      | some outcome =>
          cases outcome with
          | excluded =>
              simp only [submitted]
              rfl
          | processed report =>
              simp only [submitted]
              rw [bind_run, logShown_run]
              rfl

theorem processFile_cases (path : Text) (session : Session) :
    ((∃ cause, session.files.read path = .error cause) ∧ processFile system preprocessor bound outDir? path session = (.stopped, session)) ∨
      ∃ content, session.files.read path = .ok content ∧
        ((preprocessor.includes path = false ∧ processFile system preprocessor bound outDir? path session =
            (.next, { session with logged := session.logged ++ [skipEntry path] })) ∨
          (preprocessor.includes path = true ∧ preprocessor.run bound 0 content path = none ∧
            processFile system preprocessor bound outDir? path session = (.unfinished, session)) ∨
          ∃ report heard, preprocessor.includes path = true ∧ preprocessor.run bound 0 content path = some report ∧
            heard.files = session.files ∧ processFile system preprocessor bound outDir? path session =
              (.ofDone (deliver system outDir? path report.content heard).1,
                (deliver system outDir? path report.content heard).2)) := by
  rw [processFile_run]
  cases read : session.files.read path with
  | error cause => exact Or.inl ⟨⟨cause, rfl⟩, rfl⟩
  | ok content =>
      refine Or.inr ⟨content, rfl, ?_⟩
      by_cases included : preprocessor.includes path = true
      · cases ran : preprocessor.run bound 0 content path with
        | none => exact Or.inr (Or.inl ⟨included, rfl, by simp [Preprocessor.submit, included, ran]⟩)
        | some report =>
            refine Or.inr (Or.inr ⟨report, { session with logged := session.logged ++ report.log.filter (·.level.shown) },
              included, rfl, rfl, ?_⟩)
            simp only [Preprocessor.submit, if_pos included, ran, Option.map_some]
      · exact Or.inl ⟨Bool.eq_false_iff.mpr included, by simp [Preprocessor.submit, included]⟩

section Steps

variable {path : Text} {rest : List Text} {session next : Session}

theorem processFiles_next (went : processFile system preprocessor bound outDir? path session = (.next, next)) :
    processFiles system preprocessor bound outDir? (path :: rest) session =
      processFiles system preprocessor bound outDir? rest next := by
  rw [processFiles, bind_run, went]

theorem processFiles_stopped (went : processFile system preprocessor bound outDir? path session = (.stopped, next)) :
    processFiles system preprocessor bound outDir? (path :: rest) session = (some .failure, next) := by
  rw [processFiles, bind_run, went]
  rfl

theorem processFiles_unfinished (went : processFile system preprocessor bound outDir? path session = (.unfinished, next)) :
    processFiles system preprocessor bound outDir? (path :: rest) session = (none, next) := by
  rw [processFiles, bind_run, went]
  rfl

end Steps

theorem processFiles_append (first rest : List Text) (session : Session) :
    processFiles system preprocessor bound outDir? (first ++ rest) session =
      if (processFiles system preprocessor bound outDir? first session).1 = some .success then
        processFiles system preprocessor bound outDir? rest (processFiles system preprocessor bound outDir? first session).2
      else processFiles system preprocessor bound outDir? first session := by
  induction first generalizing session with
  | nil => rfl
  | cons path first ih =>
      rw [List.cons_append]
      rcases went : processFile system preprocessor bound outDir? path session with ⟨progress, next⟩
      cases progress with
      | next => rw [processFiles_next went, processFiles_next went, ih]
      | stopped =>
          rw [processFiles_stopped went, processFiles_stopped went]
          rfl
      | unfinished =>
          rw [processFiles_unfinished went, processFiles_unfinished went]
          rfl

theorem processFiles_concat {paths : List Text} {path : Text} {session after : Session}
    (finished : processFiles system preprocessor bound outDir? (paths ++ [path]) session = (some .success, after)) :
    ∃ reached, processFiles system preprocessor bound outDir? paths session = (some .success, reached) ∧
      processFile system preprocessor bound outDir? path reached = (.next, after) := by
  rw [processFiles_append] at finished
  rcases first : processFiles system preprocessor bound outDir? paths session with ⟨exit?, reached⟩
  rw [first] at finished
  by_cases success : exit? = some .success
  · subst success
    rw [if_pos rfl] at finished
    refine ⟨reached, rfl, ?_⟩
    rcases went : processFile system preprocessor bound outDir? path reached with ⟨progress, next⟩
    cases progress with
    | next =>
        rw [processFiles_next went] at finished
        obtain rfl : next = after := (Prod.mk.inj finished).2
        rfl
    | stopped =>
        rw [processFiles_stopped went] at finished
        cases (Prod.mk.inj finished).1
    | unfinished =>
        rw [processFiles_unfinished went] at finished
        cases (Prod.mk.inj finished).1
  · rw [if_neg success] at finished
    exact absurd (Prod.mk.inj finished).1 success

theorem processFile_written (path : Text) (session : Session) :
    (processFile system preprocessor bound outDir? path session).2.files = session.files ∨
      ∃ outDir name content report, outDir? = some outDir ∧ preprocessor.includes path = true ∧
        session.files.read path = .ok content ∧ preprocessor.run bound 0 content path = some report ∧
        Path.fileName? path = some name ∧ session.files.write (Path.join outDir name) report.content =
          .ok (processFile system preprocessor bound outDir? path session).2.files := by
  rcases @processFile_cases preprocessor bound outDir? path session with ⟨-, went⟩ | ⟨content, read, ⟨-, went⟩ | ⟨-, -, went⟩ |
    ⟨report, heard, included, ran, same, went⟩⟩
  · exact Or.inl (congrArg (fun result => result.2.files) went)
  · exact Or.inl (congrArg (fun result => result.2.files) went)
  · exact Or.inl (congrArg (fun result => result.2.files) went)
  · rw [went]
    cases outDir? with
    | none => exact Or.inl same
    | some outDir =>
        rcases deliver_cases outDir path report.content heard with ⟨-, kept⟩ | ⟨name, named, -, written⟩
        · exact Or.inl (kept.trans same)
        · exact Or.inr ⟨outDir, name, content, report, rfl, included, read, ran, named, same ▸ written⟩

theorem processFile_next {outDir path : Text} {session after : Session}
    (went : processFile system preprocessor bound (some outDir) path session = (.next, after)) :
    ∃ content, session.files.read path = .ok content ∧
      ((preprocessor.includes path = false ∧ after.files = session.files) ∨
        ∃ report name, preprocessor.includes path = true ∧ preprocessor.run bound 0 content path = some report ∧
          Path.fileName? path = some name ∧ session.files.write (Path.join outDir name) report.content = .ok after.files) := by
  rcases @processFile_cases preprocessor bound (some outDir) path session with ⟨-, other⟩ | ⟨content, read, ⟨rejected, other⟩ |
    ⟨-, -, other⟩ | ⟨report, heard, included, ran, same, other⟩⟩
  · cases (Prod.mk.inj (other.symm.trans went)).1
  · refine ⟨content, read, Or.inl ⟨rejected, ?_⟩⟩
    rw [← (Prod.mk.inj (other.symm.trans went)).2]
  · cases (Prod.mk.inj (other.symm.trans went)).1
  · obtain ⟨done, left⟩ := Prod.mk.inj (other.symm.trans went)
    rcases deliver_cases outDir path report.content heard with ⟨stuck, -⟩ | ⟨name, named, -, written⟩
    · rw [stuck] at done
      cases done
    · rw [same, left] at written
      exact ⟨content, read, Or.inr ⟨report, name, included, ran, named, written⟩⟩

-- What each write of a run keeps of the files is kept by the run.
theorem processFiles_invariant {holds : Files → Prop}
    (keeps : ∀ files path name outDir markup after, holds files → preprocessor.includes path = true →
      Path.fileName? path = some name → files.write (Path.join outDir name) markup = .ok after → holds after)
    {paths : List Text} {session : Session} (start : holds session.files) :
    holds (processFiles system preprocessor bound outDir? paths session).2.files := by
  induction paths generalizing session with
  | nil => exact start
  | cons path rest ih =>
      have kept : holds (processFile system preprocessor bound outDir? path session).2.files := by
        rcases @processFile_written preprocessor bound outDir? path session with
          same | ⟨outDir, name, content, report, -, included, -, -, named, written⟩
        · exact same ▸ start
        · exact keeps _ path name outDir report.content _ start included named written
      rcases went : processFile system preprocessor bound outDir? path session with ⟨progress, next⟩
      rw [went] at kept
      cases progress with
      | next =>
          rw [processFiles_next went]
          exact ih kept
      | stopped =>
          rw [processFiles_stopped went]
          exact kept
      | unfinished =>
          rw [processFiles_unfinished went]
          exact kept

theorem prepareOutDir_run (session : Session) : prepareOutDir system outDir? session =
    match outDir? with
    | none => (true, session)
    | some outDir =>
        match session.files.createDirectories outDir with
        | .error _ => (false, session)
        | .ok files => (true, { session with files }) := by
  cases outDir? with
  | none => rfl
  | some outDir =>
      have step : system.createDirectories outDir session = change (fun files => files.createDirectories outDir) session := rfl
      simp only [prepareOutDir]
      rw [bind_run, step, change]
      cases session.files.createDirectories outDir with
      | error cause => rfl
      | ok files => rfl

structure Alike (session other : Session) : Prop where
  files : session.files = other.files
  printed : session.printed = other.printed

def AlikeAfter {α : Type} (result other : α × Session) : Prop :=
  result.1 = other.1 ∧ result.2.Alike other.2

theorem deliver_alike {session other : Session} (alike : session.Alike other) (path markup : Text) :
    AlikeAfter (deliver system outDir? path markup session) (deliver system outDir? path markup other) := by
  obtain ⟨files, printed, logged⟩ := session
  obtain ⟨others, prints, logs⟩ := other
  obtain ⟨rfl, rfl⟩ : files = others ∧ printed = prints := ⟨alike.files, alike.printed⟩
  rw [deliver_run, deliver_run]
  cases outDir? with
  | none => exact ⟨rfl, rfl, rfl⟩
  | some outDir =>
      cases Path.fileName? path with
      | none => exact ⟨rfl, rfl, rfl⟩
      | some name =>
          cases written : files.write (Path.join outDir name) markup <;> simp only [written] <;> exact ⟨rfl, rfl, rfl⟩

theorem processFile_alike {session other : Session} (alike : session.Alike other) (path : Text) :
    AlikeAfter (processFile system preprocessor bound outDir? path session)
      (processFile system preprocessor bound outDir? path other) := by
  obtain ⟨files, printed, logged⟩ := session
  obtain ⟨others, prints, logs⟩ := other
  obtain ⟨rfl, rfl⟩ : files = others ∧ printed = prints := ⟨alike.files, alike.printed⟩
  rw [processFile_run, processFile_run]
  cases files.read path with
  | error cause => exact ⟨rfl, alike⟩
  | ok content =>
      cases submitted : preprocessor.submit bound 0 content path with
      | none =>
          simp only [submitted]
          exact ⟨rfl, alike⟩
      | some outcome =>
          cases outcome with
          | excluded =>
              simp only [submitted]
              exact ⟨rfl, rfl, rfl⟩
          | processed report =>
              simp only [submitted]
              obtain ⟨done, left⟩ := @deliver_alike outDir? ⟨files, printed, logged ++ report.log.filter (·.level.shown)⟩
                ⟨files, printed, logs ++ report.log.filter (·.level.shown)⟩ ⟨rfl, rfl⟩ path report.content
              exact ⟨congrArg Progress.ofDone done, left⟩

theorem processFile_more {path : Text} {more : Nat} {session : Session} (enough : bound ≤ more)
    (settled : (processFile system preprocessor bound outDir? path session).1 ≠ .unfinished) :
    processFile system preprocessor more outDir? path session = processFile system preprocessor bound outDir? path session := by
  rw [processFile_run] at settled
  rw [processFile_run, processFile_run]
  cases read : session.files.read path with
  | error cause => rfl
  | ok content =>
      cases submitted : preprocessor.submit bound 0 content path with
      | none =>
          simp only [read, submitted] at settled
          exact absurd rfl settled
      | some outcome =>
          have again : preprocessor.submit more 0 content path = some outcome := Preprocessor.submit_more submitted enough
          simp only [submitted, again]

-- A bound that is enough for a run stays enough, and changes nothing of it.
theorem processFiles_more {paths : List Text} {more : Nat} {session after : Session} {exit : Exit} (enough : bound ≤ more)
    (finished : processFiles system preprocessor bound outDir? paths session = (some exit, after)) :
    processFiles system preprocessor more outDir? paths session = (some exit, after) := by
  induction paths generalizing session with
  | nil => exact finished
  | cons path rest ih =>
      rcases went : processFile system preprocessor bound outDir? path session with ⟨progress, next⟩
      cases progress with
      | next =>
          rw [processFiles_next went] at finished
          have again := processFile_more enough (fun stuck => nomatch (congrArg Prod.fst went).symm.trans stuck)
          rw [processFiles_next (again.trans went), ih finished]
      | stopped =>
          rw [processFiles_stopped went] at finished
          have again := processFile_more enough (fun stuck => nomatch (congrArg Prod.fst went).symm.trans stuck)
          rw [processFiles_stopped (again.trans went), finished]
      | unfinished =>
          rw [processFiles_unfinished went] at finished
          cases (Prod.mk.inj finished).1

-- The run comes to its files: it has its configuration and its preprocessor, and the output directory is there.
structure Opens (builtin : Except Fault Library) (arguments : Arguments) (session : Session) (config : Config)
    (preprocessor : Preprocessor) (opened : Session) : Prop where
  configured : readConfig system arguments.config? session = (.ok config, session)
  pages : arguments.stylesheet = false
  built : filePreprocessor config builtin arguments.accepted = .ok preprocessor
  prepared : prepareOutDir system arguments.outDir? session = (true, opened)

variable {builtin : Except Fault Library} {arguments : Arguments} {session opened : Session} {config : Config}

theorem filePreprocessor_includes {extensions : List Text}
    (built : filePreprocessor config builtin extensions = .ok preprocessor) (path : Text) :
    preprocessor.includes path = acceptsExtension extensions path := by
  cases builtin with
  | error fault => cases built
  | ok library =>
      obtain rfl := Except.ok.inj built
      rfl

theorem opens_directory {outDir : Text} (opens : Opens builtin arguments session config preprocessor opened)
    (asked : arguments.outDir? = some outDir) : session.files.createDirectories outDir = .ok opened.files := by
  have prepared := opens.prepared
  rw [prepareOutDir_run, asked] at prepared
  cases made : session.files.createDirectories outDir with
  | error cause =>
      simp only [made] at prepared
      cases (Prod.mk.inj prepared).1
  | ok created =>
      simp only [made] at prepared
      rw [← (Prod.mk.inj prepared).2]

theorem readConfig_run (path? : Option Text) (session : Session) : readConfig system path? session =
    (path?.elim (.ok {}) fun path => ((session.files.read path).mapError Fault.ofFile).bind Config.parse, session) := by
  cases path? with
  | none => rfl
  | some path =>
      have step : system.read path session = (session.files.read path, session) := rfl
      rw [readConfig, bind_run, step, Option.elim_some]
      cases session.files.read path <;> rfl

-- What keeps the run from its configuration passes on what was wrong with the file or with the text in it.
theorem readConfig_refused {path? : Option Text} {left : Session} {fault : Fault}
    (refused : readConfig system path? session = (.error fault, left)) : fault.wrapsCause = true := by
  rw [readConfig_run] at refused
  have cause := (Prod.mk.inj refused).1
  cases path? with
  | none => cases cause
  | some path =>
      rw [Option.elim_some] at cause
      cases read : session.files.read path with
      | error failed =>
          rw [read] at cause
          exact Except.error.inj cause ▸ rfl
      | ok text =>
          rw [read] at cause
          exact Config.parse_refused cause

theorem runWith_opened (opens : Opens builtin arguments session config preprocessor opened) :
    runWith system builtin bound arguments session =
      processFiles system preprocessor bound arguments.outDir? arguments.files opened := by
  obtain ⟨configured, pages, built, prepared⟩ := opens
  rw [runWith, bind_run, configured]
  simp only [pages, built]
  rw [if_neg Bool.false_ne_true, bind_run, prepared]
  rfl

-- A run that does not come to its files does not depend on them or on the bound, and fails.
theorem runWith_cases (builtin : Except Fault Library) (arguments : Arguments) (session : Session) :
    (∃ config preprocessor opened, Opens builtin arguments session config preprocessor opened) ∨
      ∃ result, (∀ bound files, runWith system builtin bound { arguments with files } session = result) ∧
        (arguments.stylesheet = false → result.1 = some .failure) := by
  rcases configured : readConfig system arguments.config? session with ⟨found, left⟩
  obtain rfl : left = session := by
    rw [readConfig_run] at configured
    exact (Prod.mk.inj configured).2.symm
  cases found with
  | error fault =>
      refine Or.inr ⟨(some .failure, left), fun bound files => ?_, fun _ => rfl⟩
      rw [runWith, bind_run, configured]
      rfl
  | ok config =>
      by_cases pages : arguments.stylesheet = true
      · refine Or.inr ⟨runWith system builtin 0 arguments left, fun bound files => ?_, fun off => absurd pages (by simp [off])⟩
        rw [runWith, runWith, bind_run, bind_run, configured]
        simp only [if_pos pages]
      · have accepted (files : List Text) : ({ arguments with files } : Arguments).accepted = arguments.accepted := rfl
        cases built : filePreprocessor config builtin arguments.accepted with
        | error fault =>
            refine Or.inr ⟨(some .failure, left), fun bound files => ?_, fun _ => rfl⟩
            rw [runWith, bind_run, configured]
            simp only [if_neg pages, accepted, built]
            rfl
        | ok preprocessor =>
            rcases prepared : prepareOutDir system arguments.outDir? left with ⟨done, opened⟩
            cases done with
            | false =>
                refine Or.inr ⟨(some .failure, opened), fun bound files => ?_, fun _ => rfl⟩
                rw [runWith, bind_run, configured]
                simp only [if_neg pages, accepted, built]
                rw [bind_run, prepared]
                rfl
            | true => exact Or.inl ⟨config, preprocessor, opened, configured, Bool.eq_false_iff.mpr pages, built, prepared⟩

theorem opens_of_success {after : Session} (pages : arguments.stylesheet = false)
    (finished : runWith system builtin bound arguments session = (some .success, after)) :
    ∃ config preprocessor opened, Opens builtin arguments session config preprocessor opened := by
  rcases runWith_cases builtin arguments session with opens | ⟨result, closed, fails⟩
  · exact opens
  · have same : result = (some .success, after) := (closed bound arguments.files).symm.trans finished
    cases (congrArg Prod.fst same).symm.trans (fails pages)

theorem runWith_more {after : Session} {exit : Exit} {more : Nat} (enough : bound ≤ more)
    (finished : runWith system builtin bound arguments session = (some exit, after)) :
    runWith system builtin more arguments session = (some exit, after) := by
  rcases runWith_cases builtin arguments session with ⟨config, preprocessor, opened, opens⟩ | ⟨result, closed, -⟩
  · rw [runWith_opened opens] at finished ⊢
    exact processFiles_more enough finished
  · exact (closed more arguments.files).trans ((closed bound arguments.files).symm.trans finished)

theorem run_runWith {args : List Text} (read : usage args = .run arguments) (session : Session) :
    Session.run builtin bound args session = runWith system builtin bound arguments session := by
  rw [Session.run, Command.run, read]
  rfl

end Session
end CodeFence.Command
