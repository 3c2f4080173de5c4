import Advisor.Proofs.Script.Nodes
import Mathlib.Data.List.Chain

/-!
# Paths

A path goes down from a declaration, a statement or an expression, each node on it directly inside
the one in front of it. How long the paths from a node are says how deep anything that follows the
tree has to go.
-/

namespace Advisor

namespace Expression

/-- The expressions directly inside. -/
def operands : Expression → List Expression
  | binary _ left right => [left, right]
  | unary _ _ operand => [operand]
  | assignment _ left right => [left, right]
  | conditional condition consequent alternate => [condition, consequent, alternate]
  | call _ arguments => arguments
  | element array index => [array, index]
  | number _ | text _ | boolean _ | identifier _ | unsupported _ => []

end Expression

namespace Statement

/-- The statements directly inside. -/
def inner : Statement → List Statement
  | block body => body
  | branch _ consequent alternate => consequent :: alternate.toList
  | forLoop _ _ _ body => [body]
  | whileLoop _ body => [body]
  | returns _ | breaks | continues | evaluate _ | declare _ | unsupported _ => []

end Statement

/-- A node of a script. -/
inductive Node where
  | declaration (d : Declaration)
  | statement (s : Statement)
  | expression (e : Expression)

namespace Node

/-- The nodes directly inside. -/
def children : Node → List Node
  | declaration (.variable v) => v.initial.toList.map expression
  | declaration (.function f) => [statement f.body]
  | declaration (.unsupported _) => []
  | statement s => s.expressions.map expression ++ s.inner.map statement
  | expression e => e.operands.map expression

/-- The nodes are a path down from the first of them. -/
def IsPath (nodes : List Node) : Prop := nodes.IsChain fun node child => child ∈ node.children

/-- No path from the node has more than so many nodes. -/
def Within (n : Nat) (node : Node) : Prop :=
  ∀ below, IsPath (node :: below) → (node :: below).length ≤ n

theorem not_within_zero (node : Node) : ¬ node.Within 0 := fun h =>
  absurd (h [] (List.isChain_singleton node)) (by simp)

theorem within_succ_iff {n : Nat} {node : Node} :
    node.Within (n + 1) ↔ ∀ child ∈ node.children, child.Within n := by
  constructor
  · intro h child hchild below hpath
    exact Nat.le_of_succ_le_succ (h (child :: below) (List.isChain_cons_cons.mpr ⟨hchild, hpath⟩))
  · intro h below hpath
    cases below with
    | nil => exact Nat.le_add_left 1 n
    | cons child below =>
      obtain ⟨hchild, hbelow⟩ := List.isChain_cons_cons.mp hpath
      exact Nat.succ_le_succ (h child hchild below hbelow)

theorem Within.mono {n m : Nat} {node : Node} (h : node.Within n) (hle : n ≤ m) : node.Within m :=
  fun below hpath => Nat.le_trans (h below hpath) hle

end Node

end Advisor
