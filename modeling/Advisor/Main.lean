import Advisor.Command.Run
import Advisor.Timestamp
import Std.Time.DateTime.Timestamp

/-!
# The program

Runs the command of the words given to it on the files of the system.
-/

namespace Advisor

open Files

/-- The fault that an error of the system stands for. -/
def faultOf : IO.Error → Fault
  | .noFileOrDirectory .. => .missing
  | .alreadyExists .. => .present
  | .inappropriateType _ 20 _ => .notDirectory
  | .inappropriateType _ 21 _ => .directory
  | .invalidArgument _ 36 _ => .nameTooLong
  | e => .other (toString e)

/-- The answer of the system, with its error as a fault. -/
def attempt {α : Type} (action : IO α) : IO (Except Fault α) := do
  match ← action.toBaseIO with
  | .ok a => return .ok a
  | .error e => return .error (faultOf e)

instance : Environment IO where
  found path := (⟨path, ""⟩ : IO.FS.DirEntry).root.pathExists
  isDirectory path := (⟨path, ""⟩ : IO.FS.DirEntry).root.isDir
  read path := attempt (IO.FS.readBinFile path)
  makeDirectory path := attempt (IO.FS.createDir path)
  write path bytes := attempt (IO.FS.writeBinFile path bytes)
  print text := do
    let out ← IO.getStdout
    out.putStr text
    out.flush

end Advisor

/-- Runs the command of the words at the present time. -/
def main (words : List String) : IO UInt32 := do
  let seconds := (← Std.Time.Timestamp.now).toSecondsSinceUnixEpoch.val
  let stamp := Advisor.Timestamp.ofSeconds seconds.toNat
  let outcome ← Advisor.Command.runWords (m := IO) stamp words
  match outcome with
  | .done => return 0
  | .failed _ => IO.eprintln outcome.complaint
  | .misused => IO.eprintln "usage: ea-translate [-l LEVEL] translate|metadata|builtins"
  return outcome.exitCode.toUInt32
