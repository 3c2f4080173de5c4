import Advisor.Proofs.Script.Nodes
import Advisor.Settings.Basic

/-!
# Well-formed scripts

A script is well formed if its names are identifiers and its operators are those of the language,
each in its place. What node kinds are called is left open.
-/

namespace Advisor

namespace Operator

def binary : List String :=
  ["+", "-", "*", "/", "%", "==", "!=", "<", ">", "<=", ">=", "&&", "||", "&", "|", "^", "<<", ">>"]

def assignment : List String :=
  ["=", "+=", "-=", "*=", "/=", "%=", "&=", "|=", "^=", "<<=", ">>="]

def leading : List String := ["-", "+", "!", "~", "++", "--"]

def trailing : List String := ["++", "--"]

end Operator

namespace Expression

/-- Whether the node itself has a proper name or operator. -/
def proper : Expression → Bool
  | identifier name => Settings.isIdentifier name
  | binary operator _ _ => Operator.binary.contains operator
  | unary operator true _ => Operator.leading.contains operator
  | unary operator false _ => Operator.trailing.contains operator
  | assignment operator _ _ => Operator.assignment.contains operator
  | call callee _ => Settings.isIdentifier callee
  | _ => true

def WellFormed (e : Expression) : Prop := ∀ n ∈ e.nodes, n.proper = true

instance (e : Expression) : Decidable e.WellFormed :=
  inferInstanceAs (Decidable (∀ n ∈ e.nodes, n.proper = true))

def kind? : Expression → Option String
  | unsupported kind => some kind
  | _ => none

def kinds (e : Expression) : List String := e.nodes.filterMap kind?

theorem WellFormed.mono {e n : Expression} (h : e.WellFormed) (hn : n.nodes ⊆ e.nodes) :
    n.WellFormed :=
  fun m hm => h m (hn hm)

theorem kinds_mono {e n : Expression} (hn : n.nodes ⊆ e.nodes) : n.kinds ⊆ e.kinds :=
  List.filterMap_subset kind? hn

section

attribute [local simp] nodes proper kind?

variable {operator name callee kind : String} {l r e : Expression} {es : List Expression}

@[simp] theorem wellFormed_identifier :
    (identifier name).WellFormed ↔ Settings.isIdentifier name = true := by
  simp [WellFormed]

@[simp] theorem wellFormed_binary : (binary operator l r).WellFormed ↔
    operator ∈ Operator.binary ∧ l.WellFormed ∧ r.WellFormed := by
  simp [WellFormed, or_imp, forall_and]

@[simp] theorem wellFormed_leading : (unary operator true e).WellFormed ↔
    operator ∈ Operator.leading ∧ e.WellFormed := by
  simp [WellFormed]

@[simp] theorem wellFormed_trailing : (unary operator false e).WellFormed ↔
    operator ∈ Operator.trailing ∧ e.WellFormed := by
  simp [WellFormed]

@[simp] theorem wellFormed_assignment : (assignment operator l r).WellFormed ↔
    operator ∈ Operator.assignment ∧ l.WellFormed ∧ r.WellFormed := by
  simp [WellFormed, or_imp, forall_and]

@[simp] theorem wellFormed_conditional : (conditional e l r).WellFormed ↔
    e.WellFormed ∧ l.WellFormed ∧ r.WellFormed := by
  simp [WellFormed, or_imp, forall_and]

@[simp] theorem wellFormed_call : (call callee es).WellFormed ↔
    Settings.isIdentifier callee = true ∧ ∀ e ∈ es, e.WellFormed := by
  simp only [WellFormed, nodes, nodesAll_eq, List.forall_mem_cons, List.mem_flatMap, proper]
  refine and_congr Iff.rfl ⟨fun h e he n hn => h n ⟨e, he, hn⟩, ?_⟩
  rintro h n ⟨e, he, hn⟩
  exact h e he n hn

@[simp] theorem wellFormed_element :
    (element l r).WellFormed ↔ l.WellFormed ∧ r.WellFormed := by
  simp [WellFormed, or_imp, forall_and]

@[simp] theorem kinds_binary : (binary operator l r).kinds = l.kinds ++ r.kinds := by
  simp [kinds, List.filterMap_cons]

@[simp] theorem kinds_unary (leading : Bool) : (unary operator leading e).kinds = e.kinds := by
  simp [kinds, List.filterMap_cons]

@[simp] theorem kinds_assignment : (assignment operator l r).kinds = l.kinds ++ r.kinds := by
  simp [kinds, List.filterMap_cons]

@[simp] theorem kinds_conditional :
    (conditional e l r).kinds = e.kinds ++ l.kinds ++ r.kinds := by
  simp [kinds, List.filterMap_cons]

@[simp] theorem kinds_call : (call callee es).kinds = es.flatMap kinds := by
  simp only [kinds, nodes, nodesAll_eq, List.filterMap_cons, kind?, List.filterMap_flatMap]
  rfl

@[simp] theorem kinds_element : (element l r).kinds = l.kinds ++ r.kinds := by
  simp [kinds, List.filterMap_cons]

@[simp] theorem kinds_unsupported : (unsupported kind).kinds = [kind] := rfl

end

end Expression

namespace Statement

/-- Whether the name that the statement itself declares is an identifier, and its expressions are
well formed. -/
def Proper (s : Statement) : Prop :=
  (∀ e ∈ s.expressions, e.WellFormed) ∧ match s with
    | declare declared => Settings.isIdentifier declared.name = true
    | _ => True

def WellFormed (s : Statement) : Prop := ∀ n ∈ s.nodes, n.Proper

def kind? : Statement → Option String
  | unsupported kind => some kind
  | _ => none

def kinds (s : Statement) : List String := s.nodes.filterMap kind?

def expressionKinds (s : Statement) : List String :=
  s.nodes.flatMap fun n => n.expressions.flatMap Expression.kinds

theorem WellFormed.mono {s n : Statement} (h : s.WellFormed) (hn : n.nodes ⊆ s.nodes) :
    n.WellFormed :=
  fun m hm => h m (hn hm)

theorem kinds_mono {s n : Statement} (hn : n.nodes ⊆ s.nodes) : n.kinds ⊆ s.kinds :=
  List.filterMap_subset kind? hn

theorem expressionKinds_mono {s n : Statement} (hn : n.nodes ⊆ s.nodes) :
    n.expressionKinds ⊆ s.expressionKinds := by
  intro kind hkind
  obtain ⟨m, hm, hkind⟩ := List.mem_flatMap.mp hkind
  exact List.mem_flatMap.mpr ⟨m, hn hm, hkind⟩

end Statement

namespace Variable

def WellFormed (v : Variable) : Prop :=
  Settings.isIdentifier v.name = true ∧ ∀ e ∈ v.initial, e.WellFormed

end Variable

namespace Function

def WellFormed (f : Function) : Prop :=
  Settings.isIdentifier f.name = true
    ∧ (∀ p ∈ f.parameters, Settings.isIdentifier p.name = true) ∧ f.body.WellFormed

end Function

namespace Declaration

def WellFormed : Declaration → Prop
  | .variable declared => declared.WellFormed
  | .function declared => declared.WellFormed
  | .unsupported _ => True

end Declaration

def Script.WellFormed (script : Script) : Prop := ∀ d ∈ script.declarations, d.WellFormed

end Advisor
