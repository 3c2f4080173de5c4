import Advisor.Script.Statement

/-!
# Declarations and scripts
-/

namespace Advisor

structure Parameter where
  name : String
  type : Option String
deriving DecidableEq, Repr, Inhabited

structure Function where
  name : String
  parameters : List Parameter
  body : Statement
  returnType : Option String
deriving Repr, Inhabited

inductive Declaration where
  | variable (declared : Variable)
  | function (declared : Function)
  /-- A node of a kind that is not supported. -/
  | unsupported (kind : String)
deriving Repr, Inhabited

/-- A script: a sequence of declarations under an optional name. -/
structure Script where
  name : Option String
  declarations : List Declaration
deriving Repr

namespace Script

def empty : Script := ⟨none, []⟩

end Script

end Advisor
