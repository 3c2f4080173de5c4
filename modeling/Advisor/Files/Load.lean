import Advisor.Files.Environment
import Advisor.Settings.Wire
import Advisor.Translation
import Advisor.Wire.Blame
import Advisor.Wire.Declaration

/-!
# Loading

Scripts and settings from files. A file that is not there is told apart from one that cannot be
read, and a text that is read but refused is a failure of its content.
-/

namespace Advisor

open Files Wire

/-- Reads a script from its text. -/
def Script.decode (text : String) : Except Failure Script :=
  (Script.ofText text).mapError Flaw.inScript

/-- Reads settings from the text of the file, and checks them. -/
def Settings.decode (path text : String) : Except Failure Settings := do
  let settings ← (Settings.ofText text).mapError (Flaw.inSettings path)
  settings.validate
  return settings

section

variable {m : Type → Type} [Monad m] [Environment m]

/-- The text of a file. -/
def loadText (path : String) : ExceptT Failure m String := do
  if !(← Environment.found (m := m) path) then throw (.fileNotFound path)
  match ← Environment.read (m := m) path with
  | .error e => throw (.fileRead (path ++ ": " ++ e.message))
  | .ok bytes =>
    match String.fromUTF8? bytes with
    | none => throw (.fileRead (path ++ ": " ++ Fault.notText.message))
    | some text => return text

def Script.load (path : String) : ExceptT Failure m Script := do
  MonadExcept.ofExcept (Script.decode (← loadText path))

/-- The settings in a file, or the standard ones if no file is named. -/
def Settings.load : Option String → ExceptT Failure m Settings
  | none => return Settings.standard
  | some path => do MonadExcept.ofExcept (Settings.decode path (← loadText path))

/-- Translates the script in a file. -/
def Translation.load (path : String) (settings : Settings) (now : String) :
    ExceptT Failure m Translation :=
  return Translation.ofScript (← Script.load path) settings now

/-- Describes the inputs of the script in a file. -/
def Descriptor.load (path : String) (settings : Settings) : ExceptT Failure m (List Descriptor) :=
  return (Scope.ofScript (← Script.load path) settings).descriptors

end

end Advisor
