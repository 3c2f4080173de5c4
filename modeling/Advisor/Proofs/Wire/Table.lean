import Advisor.Proofs.Wire.Path
import Mathlib.Data.List.Pairwise

/-!
# The fields of nodes

For each kind of node and each tag that is known there, the fields in the order in which the node
declares them: under which names an object may give a field, what it holds, and what it means that
it is not there.
-/

namespace Advisor.Wire

/-- What a field holds. -/
inductive Content where
  | text
  | flag
  | double
  | node (kind : Kind)
  | nodes (kind : Kind)
  | parameters
deriving DecidableEq, Repr

/-- What it means that a field is not there. -/
inductive Absence where
  | flaw
  /-- That there is nothing, as null means it. -/
  | nothing
  /-- That the value is the usual one. -/
  | usual (value : Json.Value)
deriving Repr

structure Field where
  names : List String
  content : Content
  absence : Absence
deriving Repr

/-- The fields of a variable. -/
def variableFields : List Field :=
  [⟨["name"], .text, .flaw⟩, ⟨["varType"], .text, .flaw⟩,
    ⟨["defaultValue"], .node .expression, .nothing⟩, ⟨["isInput"], .flag, .usual (.bool false)⟩]

/-- The fields of a function. -/
def functionFields : List Field :=
  [⟨["name"], .text, .flaw⟩, ⟨["parameters"], .parameters, .usual (.array [])⟩,
    ⟨["body"], .node .statement, .flaw⟩, ⟨["returnType"], .text, .nothing⟩]

/-- The fields of the nodes of the kind, by their tags. -/
def Kind.fieldTable : Kind → List (String × List Field)
  | expression =>
    [("NumberLiteral", [⟨["value"], .double, .flaw⟩]),
      ("StringLiteral", [⟨["value"], .text, .flaw⟩]),
      ("BooleanLiteral", [⟨["value"], .flag, .flaw⟩]),
      ("Identifier", [⟨["name"], .text, .flaw⟩]),
      ("BinaryExpression", [⟨["operator"], .text, .flaw⟩, ⟨["left"], .node expression, .flaw⟩,
        ⟨["right"], .node expression, .flaw⟩]),
      ("UnaryExpression", [⟨["operator"], .text, .flaw⟩,
        ⟨["operand", "argument"], .node expression, .flaw⟩,
        ⟨["prefix"], .flag, .usual (.bool true)⟩]),
      ("AssignmentExpression", [⟨["operator"], .text, .usual (.text "=")⟩,
        ⟨["left"], .node expression, .flaw⟩, ⟨["right"], .node expression, .flaw⟩]),
      ("ConditionalExpression", [⟨["condition", "test"], .node expression, .flaw⟩,
        ⟨["consequent"], .node expression, .flaw⟩, ⟨["alternate"], .node expression, .flaw⟩]),
      ("CallExpression", [⟨["callee"], .text, .flaw⟩,
        ⟨["arguments"], .nodes expression, .usual (.array [])⟩]),
      ("ArrayAccess", [⟨["array"], .node expression, .flaw⟩,
        ⟨["index"], .node expression, .flaw⟩])]
  | statement =>
    [("BlockStatement", [⟨["body"], .nodes statement, .flaw⟩]),
      ("IfStatement", [⟨["condition"], .node expression, .flaw⟩,
        ⟨["consequent", "thenBranch"], .node statement, .flaw⟩,
        ⟨["alternate", "elseBranch"], .node statement, .nothing⟩]),
      ("ForStatement", [⟨["init"], .node expression, .nothing⟩,
        ⟨["condition"], .node expression, .nothing⟩,
        ⟨["update", "increment"], .node expression, .nothing⟩,
        ⟨["body"], .node statement, .flaw⟩]),
      ("WhileStatement", [⟨["condition"], .node expression, .flaw⟩,
        ⟨["body"], .node statement, .flaw⟩]),
      ("ReturnStatement", [⟨["value", "argument"], .node expression, .nothing⟩]),
      ("BreakStatement", []),
      ("ContinueStatement", []),
      ("ExpressionStatement", [⟨["expression"], .node expression, .flaw⟩]),
      ("VariableDeclaration", variableFields)]
  | declaration =>
    [("VariableDeclaration", variableFields), ("FunctionDeclaration", functionFields)]

/-- The fields of a node with the tag, if that is known. -/
def Kind.fields? (kind : Kind) (tag : String) : Option (List Field) := kind.fieldTable.lookup tag

/-- What is read from nodes of the kind. -/
abbrev Kind.Tree : Kind → Type
  | expression => Expression
  | statement => Statement
  | declaration => Declaration

/-- Reads a node of the kind. -/
def Kind.ofValue : (kind : Kind) → Json.Value → Except Flaw kind.Tree
  | expression => Expression.ofValue
  | statement => Statement.ofValue
  | declaration => Declaration.ofValue

/-- The value is a writing of the tree. -/
def Kind.Written : (kind : Kind) → kind.Tree → Json.Value → Prop
  | expression => Expression.Written
  | statement => Statement.Written
  | declaration => Declaration.Written

theorem Kind.ofValue_iff {kind : Kind} {v : Json.Value} {t : kind.Tree} :
    kind.ofValue v = .ok t ↔ kind.Written t v := by
  cases kind with
  | expression => exact Expression.ofValue_iff
  | statement => exact Statement.ofValue_iff
  | declaration => exact Declaration.ofValue_iff

theorem Kind.accepts_iff {kind : Kind} {v : Json.Value} :
    kind.Accepts v ↔ ∃ t, kind.ofValue v = .ok t := by
  cases kind <;> exact Iff.rfl

theorem mem_fieldTable {kind : Kind} {tag : String} {fields : List Field}
    (h : kind.fields? tag = some fields) : (tag, fields) ∈ kind.fieldTable := by
  obtain ⟨before, after, hsplit, -⟩ := List.lookup_eq_some_iff.mp h
  simp [hsplit]

theorem disjoint_names {kind : Kind} {tag : String} {fields : List Field}
    (h : kind.fields? tag = some fields) {f g : Field} (hf : f ∈ fields) (hg : g ∈ fields)
    (hne : f ≠ g) : f.names.Disjoint g.names := by
  have htable : ∀ entry ∈ kind.fieldTable,
      entry.2.Pairwise fun f g => ∀ name ∈ f.names, name ∉ g.names := by
    cases kind <;> decide
  have : Std.Symm fun f g : Field => ∀ name ∈ f.names, name ∉ g.names :=
    ⟨fun _ _ h name hg hf => h name hf hg⟩
  exact fun name => (htable _ (mem_fieldTable h)).forall hf hg hne name

end Advisor.Wire
