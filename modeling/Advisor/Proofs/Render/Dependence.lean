import Advisor.Proofs.Script.Nodes
import Advisor.Scope
import Mathlib.Data.List.Basic

/-!
# What a text depends on

Of a context only the names count that a text mentions: contexts that write these alike give the same
text, whatever else they hold.
-/

namespace Advisor

variable {c c' : Context}

namespace Context

/-- The contexts write the name alike that the node has, if it has one. -/
def WriteAlike (c c' : Context) : Expression → Prop
  | .identifier name => c.identifier name = c'.identifier name
  | .call callee _ => c.callee callee = c'.callee callee
  | _ => True

theorem identifier_congr {name : String} (hsettings : c.settings = c'.settings)
    (hglobal : c.names.isGlobal name = c'.names.isGlobal name)
    (hinput : c.settings.qualifyInputs = true → c.names.isInput name = c'.names.isInput name) :
    c.identifier name = c'.identifier name := by
  rw [identifier, identifier, hglobal, ← hsettings]
  cases hqualify : c.settings.qualifyInputs with
  | true => rw [hinput hqualify]
  | false => rfl

theorem callee_congr {name : String} (hsettings : c.settings = c'.settings)
    (hfunction : c.settings.qualifyUserFunctions = true →
      c.names.isFunction name = c'.names.isFunction name) : c.callee name = c'.callee name := by
  rw [callee, callee, ← hsettings]
  cases hqualify : c.settings.qualifyUserFunctions with
  | true => rw [hfunction hqualify]
  | false => rfl

/-- Which names there are counts, but not how often or in which order they are held. -/
theorem writeAlike_of_names (hsettings : c.settings = c'.settings)
    (hglobals : ∀ name, c.names.isGlobal name = c'.names.isGlobal name)
    (hinputs : ∀ name, c.names.isInput name = c'.names.isInput name)
    (hfunctions : ∀ name, c.names.isFunction name = c'.names.isFunction name) (e : Expression) :
    c.WriteAlike c' e := by
  cases e with
  | identifier name => exact identifier_congr hsettings (hglobals name) (fun _ => hinputs name)
  | call callee arguments => exact callee_congr hsettings (fun _ => hfunctions callee)
  | _ => trivial

end Context

namespace Expression

theorem render_congr {e : Expression} (h : ∀ n ∈ e.nodes, c.WriteAlike c' n) :
    e.render c = e.render c' := by
  induction e with
  | number | text | boolean | unsupported => rfl
  | identifier name =>
    have hname : c.identifier name = c'.identifier name := h _ (self_mem_nodes _)
    rw [render, hname, render]
  | binary operator left right ihl ihr =>
    simp only [nodes, List.forall_mem_cons, List.forall_mem_append] at h
    rw [render, ihl h.2.1, ihr h.2.2, render]
  | unary operator leading operand ih =>
    rw [nodes, List.forall_mem_cons] at h
    cases leading with
    | true => rw [render, ih h.2, render]
    | false => rw [render, ih h.2, render]
  | assignment operator left right ihl ihr =>
    simp only [nodes, List.forall_mem_cons, List.forall_mem_append] at h
    rw [render, ihl h.2.1, ihr h.2.2, render]
  | conditional condition consequent alternate ihc ihl ihr =>
    simp only [nodes, List.forall_mem_cons, List.forall_mem_append] at h
    rw [render, ihc h.2.1.1, ihl h.2.1.2, ihr h.2.2, render]
  | call callee arguments ih =>
    rw [nodes, nodesAll_eq, List.forall_mem_cons] at h
    have hcallee : c.callee callee = c'.callee callee := h.1
    have harguments : arguments.map (render c) = arguments.map (render c') := by
      apply List.map_congr_left
      intro e he
      apply ih e he
      intro n hn
      exact h.2 n (List.mem_flatMap.mpr ⟨e, he, hn⟩)
    rw [render, render, renderAll_eq, renderAll_eq, hcallee, harguments]
  | element array index iha ihi =>
    simp only [nodes, List.forall_mem_cons, List.forall_mem_append] at h
    rw [render, iha h.2.1, ihi h.2.2, render]

end Expression

theorem Variable.renderInitial_congr {v : Variable}
    (h : ∀ e ∈ v.initial, ∀ n ∈ e.nodes, c.WriteAlike c' n) :
    v.renderInitial c = v.renderInitial c' := by
  rw [renderInitial, renderInitial]
  cases hinitial : v.initial with
  | none => rfl
  | some e => exact Expression.render_congr (h e hinitial)

namespace Statement

/-- All expressions in the statement and inside them. -/
def expressionNodes (s : Statement) : List Expression :=
  s.nodes.flatMap fun n => n.expressions.flatMap Expression.nodes

private theorem mem_expressionNodes {s n : Statement} {e m : Expression} (hn : n ∈ s.nodes)
    (he : e ∈ n.expressions) (hm : m ∈ e.nodes) : m ∈ s.expressionNodes :=
  List.mem_flatMap.mpr ⟨n, hn, List.mem_flatMap.mpr ⟨e, he, hm⟩⟩

private theorem expressionNodes_mono {s n : Statement} (hn : n.nodes ⊆ s.nodes) :
    n.expressionNodes ⊆ s.expressionNodes := by
  intro m hm
  obtain ⟨k, hk, hm⟩ := List.mem_flatMap.mp hm
  exact List.mem_flatMap.mpr ⟨k, hn hk, hm⟩

private theorem clause_congr {clause : Option Expression}
    (h : ∀ e ∈ clause, ∀ n ∈ e.nodes, c.WriteAlike c' n) :
    Statement.clause c clause = Statement.clause c' clause := by
  cases clause with
  | none => rfl
  | some e => exact Expression.render_congr (h e rfl)

theorem lines_congr {s : Statement} (h : ∀ n ∈ s.expressionNodes, c.WriteAlike c' n) :
    s.lines c = s.lines c' := by
  have hown {s : Statement} (h : ∀ n ∈ s.expressionNodes, c.WriteAlike c' n) {e : Expression}
      (he : e ∈ s.expressions) : ∀ n ∈ e.nodes, c.WriteAlike c' n := by
    intro n hn
    exact h n (mem_expressionNodes (self_mem_nodes s) he hn)
  have hinner {s t : Statement} (h : ∀ n ∈ s.expressionNodes, c.WriteAlike c' n)
      (ht : t.nodes ⊆ s.nodes) : ∀ n ∈ t.expressionNodes, c.WriteAlike c' n := by
    intro n hn
    exact h n (expressionNodes_mono ht hn)
  induction s with
  | block body ih =>
    rw [lines, lines, linesAll_eq, linesAll_eq]
    apply List.flatMap_congr
    intro s hs
    exact ih s hs (hinner h (nodes_subset_block hs))
  | branch condition consequent alternate ihc iha =>
    have hcondition := Expression.render_congr (hown h List.mem_cons_self)
    have hconsequent := ihc (hinner h (nodes_subset_consequent condition consequent alternate))
    cases alternate with
    | none => rw [lines, lines, hcondition, hconsequent]
    | some alternate =>
      have halternate :=
        iha alternate rfl (hinner h (nodes_subset_alternate condition consequent alternate))
      rw [lines, lines, hcondition, hconsequent, halternate]
  | forLoop init condition update body ih =>
    have hclause (clause : Option Expression)
        (hclause : clause.toList ⊆ (forLoop init condition update body).expressions) :
        Statement.clause c clause = Statement.clause c' clause := by
      apply clause_congr
      intro e he
      exact hown h (hclause (Option.mem_toList.mpr he))
    have hbody := ih (hinner h (fun n hn => List.mem_cons_of_mem _ hn))
    rw [lines, lines, hclause init (by simp [expressions]),
      hclause condition (by simp [expressions]),
      hclause update (by simp [expressions]), hbody]
  | whileLoop condition body ih =>
    have hcondition := Expression.render_congr (hown h List.mem_cons_self)
    have hbody := ih (hinner h (fun n hn => List.mem_cons_of_mem _ hn))
    rw [lines, lines, hcondition, hbody]
  | returns value =>
    cases value with
    | none => rfl
    | some e => rw [lines, lines, Expression.render_congr (hown h List.mem_cons_self)]
  | evaluate expression =>
    rw [lines, lines, Expression.render_congr (hown h List.mem_cons_self)]
  | declare declared =>
    have hinitial : declared.renderInitial c = declared.renderInitial c' := by
      apply Variable.renderInitial_congr
      intro e he
      exact hown h (Option.mem_toList.mpr he)
    rw [lines, lines, hinitial]
  | breaks | continues | unsupported => rfl

end Statement

theorem Function.lines_congr {f : Function}
    (h : ∀ n ∈ f.body.expressionNodes, c.WriteAlike c' n) : f.lines c = f.lines c' := by
  rw [lines, lines, Statement.lines_congr h]

end Advisor
