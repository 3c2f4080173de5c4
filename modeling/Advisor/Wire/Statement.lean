import Advisor.Script.Statement
import Advisor.Wire.Expression
import Advisor.Wire.Record

/-!
# Variables and statements as nodes
-/

namespace Advisor

open Wire

namespace Variable

/-- The fields of a variable that have been read. -/
structure Draft where
  name : Option String
  type : Option String
  initial : Option (Option Expression)
  isInput : Option Bool

namespace Draft

def blank : Draft := ⟨none, none, none, none⟩

def put {ρ : Type} [Source ρ] (field : String) (r : ρ) (d : Draft) : Except Flaw Draft :=
  match field with
  | "name" => do return { d with name := ← once field d.name (Wire.text r) }
  | "varType" => do return { d with type := ← once field d.type (Wire.text r) }
  | "defaultValue" => do
    let read := nullable (fun r => do Expression.ofValue (← Source.value r)) r
    return { d with initial := ← once field d.initial read }
  | "isInput" => do return { d with isInput := ← once field d.isInput (flag r) }
  | _ => .ok d

def finish (d : Draft) : Except String Variable := do
  let some name := d.name | throw "name"
  let some type := d.type | throw "varType"
  return ⟨name, type, d.initial.join, d.isInput.getD false⟩

end Draft

def record : Record Draft Variable where
  name := "VariableDeclaration"
  fields := ["name", "varType", "defaultValue", "isInput"]
  sorted := ["defaultValue", "isInput", "name", "varType"]
  field? name := ["name", "varType", "defaultValue", "isInput"].find? (· = name)
  blank := Draft.blank
  put := Draft.put
  finish := Draft.finish

end Variable

namespace Statement

/-- The kinds of statement nodes. -/
inductive Tag where
  | blockStatement
  | ifStatement
  | forStatement
  | whileStatement
  | returnStatement
  | breakStatement
  | continueStatement
  | expressionStatement
  | variableDeclaration
deriving DecidableEq, Repr

namespace Tag

def name : Tag → String
  | blockStatement => "BlockStatement"
  | ifStatement => "IfStatement"
  | forStatement => "ForStatement"
  | whileStatement => "WhileStatement"
  | returnStatement => "ReturnStatement"
  | breakStatement => "BreakStatement"
  | continueStatement => "ContinueStatement"
  | expressionStatement => "ExpressionStatement"
  | variableDeclaration => "VariableDeclaration"

def all : List Tag :=
  [blockStatement, ifStatement, forStatement, whileStatement, returnStatement, breakStatement,
    continueStatement, expressionStatement, variableDeclaration]

def ofName? (name : String) : Option Tag := all.find? fun tag => tag.name = name

end Tag

/-- Reads a member as an expression. -/
def expressionOf (r : Reading Statement) : Except Flaw Expression := Expression.ofValue r.value

/-- Reads a member as null or an expression. -/
def expressionOf? (r : Reading Statement) : Except Flaw (Option Expression) :=
  nullable Expression.ofValue r.value

/-- Reads the fields of a node of the kind. -/
def ofFields (members : Members Statement) : Tag → Except Flaw Statement
  | .blockStatement => do
    let body ← members.field? "body" Reading.nodes
    return .block (← required "body" body)
  | .ifStatement => do
    let alternate ← members.field? "alternate" Reading.node?
    let condition ← members.field? "condition" expressionOf
    let consequent ← members.field? "consequent" Reading.node
    let alternate ← members.respelled? "elseBranch" "alternate" alternate Reading.node?
    let consequent ← members.respelled? "thenBranch" "consequent" consequent Reading.node
    return .branch (← required "condition" condition) (← required "consequent" consequent)
      alternate.join
  | .forStatement => do
    let body ← members.field? "body" Reading.node
    let condition ← members.field? "condition" expressionOf?
    let update ← members.field? "increment" expressionOf?
    let init ← members.field? "init" expressionOf?
    let update ← members.respelled? "update" "update" update expressionOf?
    return .forLoop init.join condition.join update.join (← required "body" body)
  | .whileStatement => do
    let body ← members.field? "body" Reading.node
    let condition ← members.field? "condition" expressionOf
    return .whileLoop (← required "condition" condition) (← required "body" body)
  | .returnStatement => do
    let value ← members.field? "argument" expressionOf?
    let value ← members.respelled? "value" "value" value expressionOf?
    return .returns value.join
  | .breakStatement => return .breaks
  | .continueStatement => return .continues
  | .expressionStatement => do
    let expression ← members.field? "expression" expressionOf
    return .evaluate (← required "expression" expression)
  | .variableDeclaration => do
    return .declare (← Variable.record.ofMembers members.values)

/-- Reads the members of a statement node. -/
def ofMembers (members : Members Statement) : Except Flaw Statement := do
  let tag ← tagOf members.values
  match Tag.ofName? tag with
  | some known => (ofFields members known).mapError (Flaw.within tag)
  | none => return .unsupported tag

/-- Reads a statement from a value. -/
def ofValue (value : Json.Value) : Except Flaw Statement :=
  (Reading.ofValue ofMembers value).node

end Statement

end Advisor
