import Advisor.Command.Basic
import Advisor.Files.Load
import Advisor.Files.Save
import Advisor.Host

/-!
# Running commands

Settings are read first, then the script; only when both are sound is anything written. The program
is delivered before the descriptors.
-/

namespace Advisor

open Files

/-- How a run of the program ends. -/
inductive Outcome where
  | done
  | failed (failure : Failure)
  /-- The words give no command. -/
  | misused
deriving DecidableEq, Repr

namespace Outcome

def exitCode : Outcome → Nat
  | done => 0
  | failed _ => 1
  | misused => 2

/-- What the user is told of a failure. -/
def complaint : Outcome → String
  | failed f => "Error: " ++ f.message
  | _ => ""

end Outcome

namespace Command

/-- What the program answers to the question for its version. -/
def versionLine : String := "ea-translate 0.1.0\n"

section

variable {m : Type → Type} [Monad m] [Environment m]

/-- Writes the text to the file, or prints it if there is none. -/
def deliver (text : String) : Option String → ExceptT Failure m Unit
  | some path => saveText path text
  | none => Environment.print (m := m) text

def run (now : String) : Command → ExceptT Failure m Unit
  | translate script code descriptors settings => do
    let t ← Translation.load script (← Settings.load settings) now
    deliver t.code code
    match descriptors with
    | some path => Descriptor.saveAll path t.descriptors
    | none => return
  | describe script settings => do
    let ds ← Descriptor.load script (← Settings.load settings)
    Environment.print (m := m) (Descriptor.document ds ++ "\n")
  | catalogue => Environment.print (m := m) (Host.catalogue.prettyText ++ "\n")
  | version => Environment.print (m := m) versionLine

/-- Does what the words ask for. -/
def runWords (now : String) (words : List String) : m Outcome := do
  match ofWords words with
  | none => return .misused
  | some command =>
    match ← (run now command).run with
    | .error f => return .failed f
    | .ok () => return .done

end

end Command

end Advisor
