import Advisor.Failure
import Advisor.Files.Environment
import Advisor.Translation

/-!
# Saving

Programs and descriptors go to files. The directories around a file are made first.
-/

namespace Advisor

open Files

section

variable {m : Type → Type} [Monad m] [Environment m]

/-- Makes the directories around a file. -/
def makeRoom (path : String) : ExceptT Failure m Unit := do
  match Path.directories path with
  | [] => return
  | dir :: around =>
    match ← ensureDirectories (m := m) (dir :: around) with
    | .error e => throw (.fileWrite ("Cannot create " ++ dir ++ ": " ++ e.message))
    | .ok () => return

/-- Writes a text to a file. -/
def saveText (path text : String) : ExceptT Failure m Unit := do
  makeRoom path
  match ← Environment.write (m := m) path text.toUTF8 with
  | .error e => throw (.fileWrite ("Cannot write " ++ path ++ ": " ++ e.message))
  | .ok () => return

/-- Writes descriptors to a file as a document. -/
def Descriptor.saveAll (path : String) (ds : List Descriptor) : ExceptT Failure m Unit :=
  saveText path (Descriptor.document ds)

end

end Advisor
