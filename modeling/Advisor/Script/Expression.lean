import Advisor.Binary64.Basic

/-!
# Expressions of a script
-/

namespace Advisor

/-- An expression. Operators and names are kept as they are written. -/
inductive Expression where
  | number (value : Binary64)
  | text (value : String)
  | boolean (value : Bool)
  | identifier (name : String)
  | binary (operator : String) (left right : Expression)
  /-- A leading operator stands before its operand, the others behind it. -/
  | unary (operator : String) (leading : Bool) (operand : Expression)
  | assignment (operator : String) (left right : Expression)
  | conditional (condition consequent alternate : Expression)
  | call (callee : String) (arguments : List Expression)
  | element (array index : Expression)
  /-- A node of a kind that is not supported, kept so that a marker can take its place. -/
  | unsupported (kind : String)
deriving Repr, Inhabited

end Advisor
