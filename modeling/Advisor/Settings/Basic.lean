import Advisor.Failure

/-!
# Settings

How the generated class is named and laid out, and which names it qualifies.
-/

namespace Advisor

structure Settings where
  className : String
  /-- Spaces for each level. -/
  indent : Nat
  includeTimestamp : Bool
  /-- Whether calls to functions of the script go to `this`. -/
  qualifyUserFunctions : Bool
  /-- Whether references to inputs go to `this`. -/
  qualifyInputs : Bool
deriving DecidableEq, Repr

namespace Settings

def standard : Settings := ⟨"ExpertAdvisor", 2, true, false, false⟩

/-- Letters of ASCII, the underscore and the dollar sign may begin an identifier. -/
def beginsIdentifier (c : Char) : Bool := c.isAlpha || c = '_' || c = '$'

/-- Digits may follow. -/
def continuesIdentifier (c : Char) : Bool := c.isAlphanum || c = '_' || c = '$'

def isIdentifier (name : String) : Bool :=
  match name.toList with
  | [] => false
  | c :: rest => beginsIdentifier c && rest.all continuesIdentifier

/-- The class needs an identifier, and levels one to eight spaces. -/
def validate (s : Settings) : Except Failure Unit :=
  if ¬ isIdentifier s.className then
    .error (.invalidSettings ("className '" ++ s.className ++ "' is not a valid identifier"))
  else if ¬ (1 ≤ s.indent ∧ s.indent ≤ 8) then
    .error (.invalidSettings ("indent must be between 1 and 8, got " ++ toString s.indent))
  else .ok ()

/-- The blanks in front of a line at the level. -/
def indentation (s : Settings) (level : Nat) : String :=
  String.ofList (List.replicate (s.indent * level) ' ')

end Settings

end Advisor
