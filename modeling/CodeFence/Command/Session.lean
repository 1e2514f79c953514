import CodeFence.Command.Files
import CodeFence.Command.Run

set_option autoImplicit false

namespace CodeFence.Command

structure Session where
  files : Files
  printed : Text := []
  logged : List Entry := []
deriving DecidableEq, Repr

namespace Session

def change (step : Files → Except FileFault Files) : StateM Session (Except FileFault Unit) := fun session =>
  match step session.files with
  | .error cause => (.error cause, session)
  | .ok files => (.ok (), { session with files })

def system : System (StateM Session) where
  read := fun path session => (session.files.read path, session)
  createDirectories := fun path => change fun files => files.createDirectories path
  write := fun path chars => change fun files => files.write path chars
  print := fun chars session => ((), { session with printed := session.printed ++ chars })
  log := fun entry session => ((), { session with logged := session.logged ++ [entry] })

def run (builtin : Except Fault Library) (bound : Nat) (args : List Text) (session : Session) : Option Exit × Session :=
  (Command.run system builtin bound args).run session

end Session
end CodeFence.Command
