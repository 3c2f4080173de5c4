import Advisor.Script.Expression

/-!
# Variables and statements of a script
-/

namespace Advisor

/-- A variable of the script or of a function body. -/
structure Variable where
  name : String
  type : String
  initial : Option Expression
  /-- Whether the user of the script sets the value. -/
  isInput : Bool
deriving Repr, Inhabited

inductive Statement where
  | block (body : List Statement)
  | branch (condition : Expression) (consequent : Statement) (alternate : Option Statement)
  | forLoop (init condition update : Option Expression) (body : Statement)
  | whileLoop (condition : Expression) (body : Statement)
  | returns (value : Option Expression)
  | breaks
  | continues
  | evaluate (expression : Expression)
  | declare (declared : Variable)
  /-- A node of a kind that is not supported, kept so that a marker can take its place. -/
  | unsupported (kind : String)
deriving Repr, Inhabited

end Advisor
