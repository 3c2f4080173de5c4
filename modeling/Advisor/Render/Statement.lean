import Advisor.Render.Expression
import Advisor.Script.Declaration

/-!
# Statements as lines of JavaScript

A statement gives lines, each at a level relative to the statement. Printing puts the blanks of the
level in front of each and a line break between each two. Blocks are spliced into the statements
around them, and the bodies of all others stand in braces one level deeper.
-/

namespace Advisor

/-- A line of the program, at a level relative to where it is printed. -/
structure Line where
  level : Nat
  text : String
deriving DecidableEq, Repr

namespace Line

/-- The line one level deeper. -/
def deeper (l : Line) : Line := ⟨l.level + 1, l.text⟩

/-- The line with its blanks, where level zero is printed at the depth. -/
def print (s : Settings) (depth : Nat) (l : Line) : String :=
  s.indentation (depth + l.level) ++ l.text

theorem print_deeper (s : Settings) (depth : Nat) (l : Line) :
    l.deeper.print s depth = l.print s (depth + 1) := by
  rw [print, print, deeper, Nat.add_right_comm, Nat.add_assoc]

/-- The lines printed one below the other. -/
def printAll (s : Settings) (depth : Nat) (ls : List Line) : String :=
  Text.join "\n" (ls.map (print s depth))

/-- The lines between one that opens a brace and the one that closes it. -/
def braced (opening : String) (body : List Line) (closing : List Line) : List Line :=
  ⟨0, opening ++ "\x7b"⟩ :: (body.map deeper ++ closing)

/-- The line that closes a brace. -/
def close : List Line := [⟨0, "\x7d"⟩]

/-- The lines with a text in front of the first. -/
def lead (text : String) : List Line → List Line
  | [] => []
  | l :: rest => ⟨l.level, text ++ l.text⟩ :: rest

end Line

namespace Statement

def isBranch : Statement → Bool
  | branch _ _ _ => true
  | _ => false

/-- The lines of the alternate branch, from the brace that closes the consequent. A branch follows
on the same line; anything else is put in braces. -/
def otherwise (alternate : Statement) (ls : List Line) : List Line :=
  if alternate.isBranch then Line.lead "\x7d else " ls
  else Line.braced "\x7d else " ls Line.close

/-- A clause in the head of a loop. -/
def clause (c : Context) : Option Expression → String
  | some e => e.render c
  | none => ""

mutual

/-- The lines of a statement. -/
def lines (c : Context) : Statement → List Line
  | block body => linesAll c body
  | branch condition consequent none =>
    Line.braced ("if (" ++ condition.render c ++ ") ") (consequent.lines c) Line.close
  | branch condition consequent (some alternate) =>
    Line.braced ("if (" ++ condition.render c ++ ") ") (consequent.lines c)
      (otherwise alternate (alternate.lines c))
  | forLoop init condition update body =>
    Line.braced
      ("for (" ++ clause c init ++ "; " ++ clause c condition ++ "; " ++ clause c update ++ ") ")
      (body.lines c) Line.close
  | whileLoop condition body =>
    Line.braced ("while (" ++ condition.render c ++ ") ") (body.lines c) Line.close
  | returns (some value) => [⟨0, "return " ++ value.render c ++ ";"⟩]
  | returns none => [⟨0, "return;"⟩]
  | breaks => [⟨0, "break;"⟩]
  | continues => [⟨0, "continue;"⟩]
  | evaluate expression => [⟨0, expression.render c ++ ";"⟩]
  | declare declared => [⟨0, "let " ++ declared.name ++ " = " ++ declared.renderInitial c ++ ";"⟩]
  | unsupported kind => [⟨0, "// Unsupported statement: " ++ kind⟩]

def linesAll (c : Context) : List Statement → List Line
  | [] => []
  | s :: rest => s.lines c ++ linesAll c rest

end

theorem linesAll_eq (c : Context) (body : List Statement) :
    linesAll c body = body.flatMap (lines c) := by
  induction body with
  | nil => rfl
  | cons s rest ih => rw [linesAll, ih, List.flatMap_cons]

/-- The text of a statement whose lines begin at the depth. -/
def render (c : Context) (depth : Nat) (s : Statement) : String :=
  Line.printAll c.settings depth (s.lines c)

end Statement

namespace Function

/-- The lines of a function as a method. -/
def lines (c : Context) (f : Function) : List Line :=
  Line.braced (f.name ++ "(" ++ Text.join ", " (f.parameters.map (·.name)) ++ ") ")
    (f.body.lines c) Line.close

/-- The text of a method whose lines begin at the depth. -/
def render (c : Context) (depth : Nat) (f : Function) : String :=
  Line.printAll c.settings depth (f.lines c)

end Function

end Advisor
