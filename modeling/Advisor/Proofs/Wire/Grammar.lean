import Advisor.Proofs.Script.Nodes
import Advisor.Proofs.Wire.Field
import Advisor.Wire.Declaration

/-!
# The wire grammar

Which values are writings of a tree: one production for each kind of node, with the fields that it
requires, those that may be missing and the names that a field may have. The productions say nothing
of the order in which fields are read, and nothing of failure.
-/

namespace Advisor

namespace Wire

abbrev Object := List (String × Json.Value)

/-- The value is an object with the tag and with fields as required. -/
def IsNode (tag : String) (fields : Object → Prop) (v : Json.Value) : Prop :=
  ∃ object, v = .object object ∧ Json.latest "type" object = some (.text tag) ∧ fields object

def IsText (s : String) (v : Json.Value) : Prop := v = .text s

def IsFlag (b : Bool) (v : Json.Value) : Prop := v = .bool b

/-- The double that a number stands for. -/
def ofNumber : Json.Number → Binary64
  | .integer i => Binary64.ofInt i
  | .real x => x

def IsDouble (x : Binary64) (v : Json.Value) : Prop := ∃ n, v = .number n ∧ ofNumber n = x

/-- The field is there, and has the shape. -/
def Required (object : Object) (names : List String) (shape : Json.Value → Prop) : Prop :=
  ∃ v, Gives object names v ∧ shape v

/-- The field has the shape of the part, and is lacking or null if there is none. -/
def Optional {α : Type} (object : Object) (names : List String) (shape : α → Json.Value → Prop) :
    Option α → Prop
  | some part => Required object names (shape part)
  | none => Lacks object names ∨ Gives object names .null

/-- The field has the shape, or is lacking if the part is the usual one. -/
def Defaulted (object : Object) (names : List String) (shape : Json.Value → Prop)
    (isUsual : Prop) : Prop :=
  Required object names shape ∨ Lacks object names ∧ isUsual

end Wire

open Wire

namespace Expression

/-- The tags of the expressions that are supported. -/
def tags : List String := Tag.all.map Tag.name

mutual

/-- The value is a writing of the expression. -/
def Written : Expression → Json.Value → Prop
  | number x => IsNode "NumberLiteral" fun o => Required o ["value"] (IsDouble x)
  | text s => IsNode "StringLiteral" fun o => Required o ["value"] (IsText s)
  | boolean b => IsNode "BooleanLiteral" fun o => Required o ["value"] (IsFlag b)
  | identifier name => IsNode "Identifier" fun o => Required o ["name"] (IsText name)
  | binary operator left right => IsNode "BinaryExpression" fun o =>
    Required o ["operator"] (IsText operator) ∧ Required o ["left"] left.Written
      ∧ Required o ["right"] right.Written
  | unary operator leading operand => IsNode "UnaryExpression" fun o =>
    Required o ["operator"] (IsText operator) ∧ Required o ["operand", "argument"] operand.Written
      ∧ Defaulted o ["prefix"] (IsFlag leading) (leading = true)
  | assignment operator left right => IsNode "AssignmentExpression" fun o =>
    Defaulted o ["operator"] (IsText operator) (operator = "=") ∧ Required o ["left"] left.Written
      ∧ Required o ["right"] right.Written
  | conditional condition consequent alternate => IsNode "ConditionalExpression" fun o =>
    Required o ["condition", "test"] condition.Written ∧ Required o ["consequent"] consequent.Written
      ∧ Required o ["alternate"] alternate.Written
  | call callee arguments => IsNode "CallExpression" fun o =>
    Required o ["callee"] (IsText callee)
      ∧ Defaulted o ["arguments"] (fun v => ∃ items, v = .array items ∧ AllWritten arguments items)
        (arguments = [])
  | element array index => IsNode "ArrayAccess" fun o =>
    Required o ["array"] array.Written ∧ Required o ["index"] index.Written
  | unsupported kind => IsNode kind fun _ => kind ∉ tags

/-- The values are writings of the expressions, one by one. -/
def AllWritten : List Expression → List Json.Value → Prop
  | [], items => items = []
  | e :: es, items => ∃ item rest, items = item :: rest ∧ e.Written item ∧ AllWritten es rest

end

theorem allWritten_iff {es : List Expression} {items : List Json.Value} :
    AllWritten es items ↔ List.Forall₂ (fun item e => e.Written item) items es := by
  induction es generalizing items with
  | nil => simp [AllWritten]
  | cons e es ih =>
    rw [AllWritten, List.forall₂_cons_right_iff]
    simp only [ih]
    constructor
    · rintro ⟨item, rest, rfl, hitem, hrest⟩
      exact ⟨item, rest, hitem, hrest, rfl⟩
    · rintro ⟨item, rest, hitem, hrest, rfl⟩
      exact ⟨item, rest, rfl, hitem, hrest⟩

end Expression

namespace Variable

/-- The object gives the fields of the variable. -/
def Fields (x : Variable) (o : Object) : Prop :=
  Required o ["name"] (IsText x.name) ∧ Required o ["varType"] (IsText x.type)
    ∧ Optional o ["defaultValue"] Expression.Written x.initial
    ∧ Defaulted o ["isInput"] (IsFlag x.isInput) (x.isInput = false)

end Variable

namespace Statement

/-- The tags of the statements that are supported. -/
def tags : List String := Tag.all.map Tag.name

mutual

/-- The value is a writing of the statement. -/
def Written : Statement → Json.Value → Prop
  | block body => IsNode "BlockStatement" fun o =>
    Required o ["body"] fun v => ∃ items, v = .array items ∧ AllWritten body items
  | branch condition consequent none => IsNode "IfStatement" fun o =>
    Required o ["condition"] condition.Written
      ∧ Required o ["consequent", "thenBranch"] consequent.Written
      ∧ (Lacks o ["alternate", "elseBranch"] ∨ Gives o ["alternate", "elseBranch"] .null)
  | branch condition consequent (some alternate) => IsNode "IfStatement" fun o =>
    Required o ["condition"] condition.Written
      ∧ Required o ["consequent", "thenBranch"] consequent.Written
      ∧ Required o ["alternate", "elseBranch"] alternate.Written
  | forLoop init condition update body => IsNode "ForStatement" fun o =>
    Optional o ["init"] Expression.Written init ∧ Optional o ["condition"] Expression.Written condition
      ∧ Optional o ["update", "increment"] Expression.Written update
      ∧ Required o ["body"] body.Written
  | whileLoop condition body => IsNode "WhileStatement" fun o =>
    Required o ["condition"] condition.Written ∧ Required o ["body"] body.Written
  | returns value => IsNode "ReturnStatement" fun o =>
    Optional o ["value", "argument"] Expression.Written value
  | breaks => IsNode "BreakStatement" fun _ => True
  | continues => IsNode "ContinueStatement" fun _ => True
  | evaluate expression => IsNode "ExpressionStatement" fun o =>
    Required o ["expression"] expression.Written
  | declare declared => IsNode "VariableDeclaration" declared.Fields
  | unsupported kind => IsNode kind fun _ => kind ∉ tags

/-- The values are writings of the statements, one by one. -/
def AllWritten : List Statement → List Json.Value → Prop
  | [], items => items = []
  | s :: ss, items => ∃ item rest, items = item :: rest ∧ s.Written item ∧ AllWritten ss rest

end

theorem written_branch {condition : Expression} {consequent : Statement}
    {alternate : Option Statement} : (branch condition consequent alternate).Written
      = IsNode "IfStatement" fun o => Required o ["condition"] condition.Written
        ∧ Required o ["consequent", "thenBranch"] consequent.Written
        ∧ Optional o ["alternate", "elseBranch"] Written alternate := by
  cases alternate <;> rfl

theorem allWritten_iff {ss : List Statement} {items : List Json.Value} :
    AllWritten ss items ↔ List.Forall₂ (fun item s => s.Written item) items ss := by
  induction ss generalizing items with
  | nil => simp [AllWritten]
  | cons s ss ih =>
    rw [AllWritten, List.forall₂_cons_right_iff]
    simp only [ih]
    constructor
    · rintro ⟨item, rest, rfl, hitem, hrest⟩
      exact ⟨item, rest, hitem, hrest, rfl⟩
    · rintro ⟨item, rest, hitem, hrest, rfl⟩
      exact ⟨item, rest, rfl, hitem, hrest⟩

end Statement

namespace Parameter

/-- The value is a name alone, or an object with a name and perhaps a type. -/
def Written (p : Parameter) (v : Json.Value) : Prop :=
  (v = .text p.name ∧ p.type = none) ∨
    ∃ o, v = .object o ∧ Required o ["name"] (IsText p.name) ∧ Optional o ["paramType"] IsText p.type

end Parameter

namespace Function

/-- The object gives the fields of the function. -/
def Fields (f : Function) (o : Object) : Prop :=
  Required o ["name"] (IsText f.name)
    ∧ Defaulted o ["parameters"] (fun v => ∃ items, v = .array items
        ∧ List.Forall₂ (fun item p => Parameter.Written p item) items f.parameters)
      (f.parameters = [])
    ∧ Required o ["body"] f.body.Written
    ∧ Optional o ["returnType"] IsText f.returnType

end Function

namespace Declaration

/-- The tags of the declarations that are supported. -/
def tags : List String := Tag.all.map Tag.name

/-- The value is a writing of the declaration. -/
def Written : Declaration → Json.Value → Prop
  | .variable declared => IsNode "VariableDeclaration" declared.Fields
  | .function declared => IsNode "FunctionDeclaration" declared.Fields
  | .unsupported kind => IsNode kind fun _ => kind ∉ tags

end Declaration

end Advisor
