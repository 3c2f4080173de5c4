import Advisor.Binary64.Decimal
import Advisor.Host
import Advisor.Partition
import Advisor.Settings.Basic
import Advisor.Text.Join

/-!
# Expressions as JavaScript

Every binary and conditional expression stands in parentheses, so no precedence is needed.
Names are resolved against those of the script and the host catalogue.
-/

namespace Advisor

/-- What the text of an expression depends on besides itself. -/
structure Context where
  names : Names
  settings : Settings
deriving DecidableEq, Repr

namespace Context

/-- Globals shadow predefined names; inputs do where they are qualified. All others are local. -/
def identifier (c : Context) (name : String) : String :=
  if c.names.isGlobal name || (c.settings.qualifyInputs && c.names.isInput name) then
    "this." ++ name
  else (Host.constant? name).getD name

/-- Predefined functions come before those of the script. -/
def callee (c : Context) (name : String) : String :=
  match Host.function? name with
  | some target => target
  | none =>
    if c.settings.qualifyUserFunctions && c.names.isFunction name then "this." ++ name else name

end Context

namespace Render

/-- A number with the fewest digits that read back, never with an exponent. Of two decimals that are
equally near the larger is taken. The sign of zero is kept. -/
def number (x : Binary64) : String :=
  let sign := if x.negative then "-" else ""
  if x.isNaN then "NaN"
  else if ¬ x.isFinite then sign ++ "Infinity"
  else if x.magnitude = 0 then sign ++ "0"
  else sign ++ String.ofList (Decimal.shortest .away x.magnitude).positional

/-- A character inside a string literal. -/
def escape (c : Char) : List Char :=
  match c with
  | '\\' => ['\\', '\\']
  | '"' => ['\\', '"']
  | '\n' => ['\\', 'n']
  | '\r' => ['\\', 'r']
  | '\t' => ['\\', 't']
  | c => [c]

/-- A string literal. -/
def text (s : String) : String :=
  String.ofList ('"' :: (s.toList.flatMap escape ++ ['"']))

/-- The blank between a leading operator and its operand: one if two equal signs would meet and be
read as another operator. -/
def gap (operator operand : String) : String :=
  match operator.toList.getLast?, operand.toList.head? with
  | some last, some first => if last = first ∧ (last = '-' ∨ last = '+') then " " else ""
  | _, _ => ""

theorem gap_mem (operator operand : String) : gap operator operand ∈ ["", " "] := by
  unfold gap
  grind

/-- The comment that takes the place of a node that is not supported. -/
@[irreducible]
def marker (kind : String) : String := "/* Unsupported expression: " ++ kind ++ " */"

end Render

namespace Expression

mutual

/-- The text of an expression on one line. -/
def render (c : Context) : Expression → String
  | number value => Render.number value
  | text value => Render.text value
  | boolean value => if value then "true" else "false"
  | identifier name => c.identifier name
  | binary operator left right =>
    "(" ++ left.render c ++ " " ++ operator ++ " " ++ right.render c ++ ")"
  | unary operator true operand =>
    let text := operand.render c
    operator ++ Render.gap operator text ++ text
  | unary operator false operand => operand.render c ++ operator
  | assignment operator left right => left.render c ++ " " ++ operator ++ " " ++ right.render c
  | conditional condition consequent alternate =>
    "(" ++ condition.render c ++ " ? " ++ consequent.render c ++ " : " ++ alternate.render c ++ ")"
  | call callee arguments =>
    c.callee callee ++ "(" ++ Text.join ", " (renderAll c arguments) ++ ")"
  | element array index => array.render c ++ "[" ++ index.render c ++ "]"
  | unsupported kind => Render.marker kind

def renderAll (c : Context) : List Expression → List String
  | [] => []
  | e :: rest => e.render c :: renderAll c rest

end

theorem renderAll_eq (c : Context) (es : List Expression) : renderAll c es = es.map (render c) := by
  induction es with
  | nil => rfl
  | cons e rest ih => rw [renderAll, ih, List.map_cons]

end Expression

/-- The text of the value that a variable begins with: the one given, or that of its type. -/
def Variable.renderInitial (c : Context) (v : Variable) : String :=
  match v.initial with
  | some e => e.render c
  | none => Host.typeDefault v.type

end Advisor
