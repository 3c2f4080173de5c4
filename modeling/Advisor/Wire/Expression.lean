import Advisor.Script.Expression
import Advisor.Wire.Node

/-!
# Expressions as nodes

The fields of a node are read in the order of their names, then those that must be there are called
for in the order in which the node declares them; the first flaw counts. An unknown tag is no flaw.
-/

namespace Advisor

open Wire

namespace Expression

/-- The kinds of expression nodes. -/
inductive Tag where
  | numberLiteral
  | stringLiteral
  | booleanLiteral
  | identifier
  | binaryExpression
  | unaryExpression
  | assignmentExpression
  | conditionalExpression
  | callExpression
  | arrayAccess
deriving DecidableEq, Repr

namespace Tag

def name : Tag → String
  | numberLiteral => "NumberLiteral"
  | stringLiteral => "StringLiteral"
  | booleanLiteral => "BooleanLiteral"
  | identifier => "Identifier"
  | binaryExpression => "BinaryExpression"
  | unaryExpression => "UnaryExpression"
  | assignmentExpression => "AssignmentExpression"
  | conditionalExpression => "ConditionalExpression"
  | callExpression => "CallExpression"
  | arrayAccess => "ArrayAccess"

def all : List Tag :=
  [numberLiteral, stringLiteral, booleanLiteral, identifier, binaryExpression, unaryExpression,
    assignmentExpression, conditionalExpression, callExpression, arrayAccess]

def ofName? (name : String) : Option Tag := all.find? fun tag => tag.name = name

end Tag

/-- Reads the fields of a node of the kind. -/
def ofFields (members : Members Expression) : Tag → Except Flaw Expression
  | .numberLiteral => do
    let value ← members.field? "value" fun r => double r.value
    return .number (← required "value" value)
  | .stringLiteral => do
    let value ← members.field? "value" fun r => Wire.text r.value
    return .text (← required "value" value)
  | .booleanLiteral => do
    let value ← members.field? "value" fun r => flag r.value
    return .boolean (← required "value" value)
  | .identifier => do
    let name ← members.field? "name" fun r => Wire.text r.value
    return .identifier (← required "name" name)
  | .binaryExpression => do
    let left ← members.field? "left" Reading.node
    let operator ← members.field? "operator" fun r => Wire.text r.value
    let right ← members.field? "right" Reading.node
    return .binary (← required "operator" operator) (← required "left" left)
      (← required "right" right)
  | .unaryExpression => do
    let operand ← members.field? "argument" Reading.node
    let operand ← members.respelled? "operand" "operand" operand Reading.node
    let operator ← members.field? "operator" fun r => Wire.text r.value
    let leading ← members.field? "prefix" fun r => flag r.value
    return .unary (← required "operator" operator) (leading.getD true)
      (← required "operand" operand)
  | .assignmentExpression => do
    let left ← members.field? "left" Reading.node
    let operator ← members.field? "operator" fun r => Wire.text r.value
    let right ← members.field? "right" Reading.node
    return .assignment (operator.getD "=") (← required "left" left) (← required "right" right)
  | .conditionalExpression => do
    let alternate ← members.field? "alternate" Reading.node
    let condition ← members.field? "condition" Reading.node
    let consequent ← members.field? "consequent" Reading.node
    let condition ← members.respelled? "test" "condition" condition Reading.node
    return .conditional (← required "condition" condition) (← required "consequent" consequent)
      (← required "alternate" alternate)
  | .callExpression => do
    let arguments ← members.field? "arguments" Reading.nodes
    let callee ← members.field? "callee" fun r => Wire.text r.value
    return .call (← required "callee" callee) (arguments.getD [])
  | .arrayAccess => do
    let array ← members.field? "array" Reading.node
    let index ← members.field? "index" Reading.node
    return .element (← required "array" array) (← required "index" index)

/-- Reads the members of an expression node. -/
def ofMembers (members : Members Expression) : Except Flaw Expression := do
  let tag ← tagOf members.values
  match Tag.ofName? tag with
  | some known => (ofFields members known).mapError (Flaw.within tag)
  | none => return .unsupported tag

/-- Reads an expression from a value. -/
def ofValue (value : Json.Value) : Except Flaw Expression :=
  (Reading.ofValue ofMembers value).node

end Expression

end Advisor
