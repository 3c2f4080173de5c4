import Advisor.Json.Notation
import Advisor.Json.Quoted

/-!
# Writing values

A value is written on one line without blanks, or with a line of its own for each item and member
and two spaces for each level. Empty containers stay on their line.
-/

namespace Advisor.Json

def Quoted.ofString (s : String) : List Char := Quoted.write s.toList

namespace Value

/-- The text of a value that holds no others. -/
def scalar : Value → List Char
  | .null => ['n', 'u', 'l', 'l']
  | .bool true => ['t', 'r', 'u', 'e']
  | .bool false => ['f', 'a', 'l', 's', 'e']
  | .number n => n.written
  | .text s => Quoted.ofString s
  | .array _ => []
  | .object _ => []

mutual

/-- The text on one line. -/
def compact : Value → List Char
  | .array [] => ['[', ']']
  | .array (item :: rest) => '[' :: (compact item ++ compactItems rest)
  | .object [] => ['\x7b', '\x7d']
  | .object ((name, value) :: rest) =>
    '\x7b' :: (Quoted.ofString name ++ ':' :: (compact value ++ compactMembers rest))
  | value => scalar value

/-- The items behind the first, and the closing bracket. -/
def compactItems : List Value → List Char
  | [] => [']']
  | item :: rest => ',' :: (compact item ++ compactItems rest)

/-- The members behind the first, and the closing brace. -/
def compactMembers : List (String × Value) → List Char
  | [] => ['\x7d']
  | (name, value) :: rest =>
    ',' :: (Quoted.ofString name ++ ':' :: (compact value ++ compactMembers rest))

end

/-- A new line at the level. -/
def newLine (level : Nat) : List Char := '\n' :: List.replicate (2 * level) ' '

mutual

/-- The text over several lines, the first of which begins at the level. -/
def pretty (level : Nat) : Value → List Char
  | .array [] => ['[', ']']
  | .array (item :: rest) =>
    '[' :: (newLine (level + 1) ++ (pretty (level + 1) item ++ prettyItems level rest))
  | .object [] => ['\x7b', '\x7d']
  | .object ((name, value) :: rest) =>
    '\x7b' :: (newLine (level + 1) ++ (Quoted.ofString name ++ ':' :: ' ' ::
      (pretty (level + 1) value ++ prettyMembers level rest)))
  | value => scalar value

/-- The items behind the first, and the closing bracket. -/
def prettyItems (level : Nat) : List Value → List Char
  | [] => newLine level ++ [']']
  | item :: rest =>
    ',' :: (newLine (level + 1) ++ (pretty (level + 1) item ++ prettyItems level rest))

/-- The members behind the first, and the closing brace. -/
def prettyMembers (level : Nat) : List (String × Value) → List Char
  | [] => newLine level ++ ['\x7d']
  | (name, value) :: rest =>
    ',' :: (newLine (level + 1) ++ (Quoted.ofString name ++ ':' :: ' ' ::
      (pretty (level + 1) value ++ prettyMembers level rest)))

end

/-- The value as a document on one line. -/
def compactText (value : Value) : String := String.ofList value.compact

/-- The value as a document over several lines. -/
def prettyText (value : Value) : String := String.ofList (value.pretty 0)

end Value

end Advisor.Json
