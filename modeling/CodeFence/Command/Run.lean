import CodeFence.Command.Arguments
import CodeFence.Command.Path
import CodeFence.Config

set_option autoImplicit false

namespace CodeFence.Command

structure System (m : Type → Type) where
  read : Text → m (Except FileFault Text)
  createDirectories : Text → m (Except FileFault Unit)
  write : Text → Text → m (Except FileFault Unit)
  print : Text → m Unit
  log : Entry → m Unit

inductive Exit
  | success
  | failure
  | misuse
deriving DecidableEq, Repr

def Exit.code : Exit → Nat
  | success => 0
  | failure => 1
  | misuse => 2

def acceptsExtension (extensions : List Text) (id : Text) : Bool :=
  match Path.extension? id with
  | none => false
  | some found => extensions.contains found

variable {m : Type → Type} [Monad m] (system : System m)

def readConfig : Option Text → m (Except Fault Config)
  | none => return .ok {}
  | some path => do
      match ← system.read path with
      | .error cause => return .error (.ofFile cause)
      | .ok text => return Config.parse text

def logShown : List Entry → m Unit
  | [] => return ()
  | entry :: rest => do
      if entry.level.shown then system.log entry
      logShown rest

def skipEntry (path : Text) : Entry :=
  ⟨.info, "Skipping ".toList ++ path⟩

def deliver (outDir? : Option Text) (path markup : Text) : m Bool :=
  match outDir? with
  | none => do
      system.print (markup ++ ['\n'])
      return true
  | some outDir =>
      match Path.fileName? path with
      | none => return false
      | some name => do
          match ← system.write (Path.join outDir name) markup with
          | .error _ => return false
          | .ok _ => return true

-- What came of a step of the run: it goes on, it has to end, or the bound was not enough to finish it.
inductive Progress
  | next
  | stopped
  | unfinished
deriving DecidableEq, Repr

def Progress.ofDone (done : Bool) : Progress :=
  if done then next else stopped

def processFile (preprocessor : Preprocessor) (bound : Nat) (outDir? : Option Text) (path : Text) : m Progress := do
  match ← system.read path with
  | .error _ => return .stopped
  | .ok content =>
      match preprocessor.submit bound 0 content path with
      | none => return .unfinished
      | some .excluded => do
          system.log (skipEntry path)
          return .next
      | some (.processed report) => do
          logShown system report.log
          return .ofDone (← deliver system outDir? path report.content)

-- How the run ended, or nothing if the bound was not enough for one of the files.
def processFiles (preprocessor : Preprocessor) (bound : Nat) (outDir? : Option Text) : List Text → m (Option Exit)
  | [] => return some .success
  | path :: rest => do
      match ← processFile system preprocessor bound outDir? path with
      | .next => processFiles preprocessor bound outDir? rest
      | .stopped => return some .failure
      | .unfinished => return none

def filePreprocessor (config : Config) (builtin : Except Fault Library) (extensions : List Text) : Except Fault Preprocessor :=
  (config.buildPreprocessor builtin).map fun preprocessor =>
    { preprocessor with include? := some (acceptsExtension extensions), logged := true }

def prepareOutDir : Option Text → m Bool
  | none => return true
  | some outDir => do
      match ← system.createDirectories outDir with
      | .error _ => return false
      | .ok _ => return true

def runWith (builtin : Except Fault Library) (bound : Nat) (arguments : Arguments) : m (Option Exit) := do
  match ← readConfig system arguments.config? with
  | .error _ => return some .failure
  | .ok config =>
      if arguments.stylesheet then
        system.print (config.themes.stylesheet config.stem "html.dark".toList "html.light".toList)
        return some .success
      else
        match filePreprocessor config builtin arguments.accepted with
        | .error _ => return some .failure
        | .ok preprocessor =>
            if ← prepareOutDir system arguments.outDir? then
              processFiles system preprocessor bound arguments.outDir? arguments.files
            else return some .failure

def run (builtin : Except Fault Library) (bound : Nat) (args : List Text) : m (Option Exit) :=
  match usage args with
  | .wrong => return some .misuse
  | .help => do
      system.print helpText
      return some .success
  | .version => do
      system.print versionText
      return some .success
  | .run arguments => runWith system builtin bound arguments

end CodeFence.Command
