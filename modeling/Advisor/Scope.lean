import Advisor.Render.Statement

/-!
# Scopes

The scope of a script holds its partition with the initial values of the variables as text. They are
rendered against all names of the script, so a value may refer to a variable that is declared later.
-/

namespace Advisor

/-- A variable of the script with its initial value as text. -/
structure Slot where
  name : String
  type : String
  initial : String
deriving DecidableEq, Repr

structure Scope where
  inputs : List Slot
  globals : List Slot
  functions : List Function
  warnings : List Warning
  context : Context

namespace Variable

def slot (c : Context) (v : Variable) : Slot := ⟨v.name, v.type, v.renderInitial c⟩

end Variable

namespace Scope

/-- The context in which a script is rendered. -/
def contextOf (script : Script) (settings : Settings) : Context :=
  ⟨(Partition.ofDeclarations script.declarations).names, settings⟩

def ofScript (script : Script) (settings : Settings) : Scope :=
  let partition := Partition.ofDeclarations script.declarations
  let context := contextOf script settings
  { inputs := partition.inputs.map (Variable.slot context)
    globals := partition.globals.map (Variable.slot context)
    functions := partition.functions
    warnings := partition.warnings
    context := context }

end Scope

end Advisor
