import Advisor.Script.Declaration

/-!
# Nodes of expressions and statements

All nodes of a tree in source order, each in front of what is inside it. What has to hold of every
node of a tree, or is collected from all of them, is said of one node only.
-/

namespace Advisor

namespace Expression

/-- Induction on an expression. At a call the statement may be used of all arguments. -/
@[induction_eliminator]
theorem induct {motive : Expression → Prop}
    (number : ∀ value, motive (.number value)) (text : ∀ value, motive (.text value))
    (boolean : ∀ value, motive (.boolean value)) (identifier : ∀ name, motive (.identifier name))
    (binary : ∀ operator left right, motive left → motive right →
      motive (.binary operator left right))
    (unary : ∀ operator leading operand, motive operand → motive (.unary operator leading operand))
    (assignment : ∀ operator left right, motive left → motive right →
      motive (.assignment operator left right))
    (conditional : ∀ condition consequent alternate, motive condition → motive consequent →
      motive alternate → motive (.conditional condition consequent alternate))
    (call : ∀ callee arguments, (∀ e ∈ arguments, motive e) → motive (.call callee arguments))
    (element : ∀ array index, motive array → motive index → motive (.element array index))
    (unsupported : ∀ kind, motive (.unsupported kind)) (e : Expression) : motive e := by
  refine @Expression.rec motive (fun es => ∀ e ∈ es, motive e) number text boolean identifier
    binary unary assignment conditional call element unsupported ?_ ?_ e
  · intro e he
    cases he
  · intro head tail hhead htail e he
    rcases List.mem_cons.mp he with rfl | he
    · exact hhead
    · exact htail e he

mutual

/-- The expression and all expressions inside it. -/
def nodes : Expression → List Expression
  | binary operator left right => binary operator left right :: (left.nodes ++ right.nodes)
  | unary operator leading operand => unary operator leading operand :: operand.nodes
  | assignment operator left right => assignment operator left right :: (left.nodes ++ right.nodes)
  | conditional condition consequent alternate =>
    conditional condition consequent alternate
      :: (condition.nodes ++ consequent.nodes ++ alternate.nodes)
  | call callee arguments => call callee arguments :: nodesAll arguments
  | element array index => element array index :: (array.nodes ++ index.nodes)
  | e => [e]

def nodesAll : List Expression → List Expression
  | [] => []
  | e :: rest => e.nodes ++ nodesAll rest

end

theorem nodesAll_eq (es : List Expression) : nodesAll es = es.flatMap nodes := by
  induction es with
  | nil => rfl
  | cons e rest ih => rw [nodesAll, ih, List.flatMap_cons]

theorem self_mem_nodes (e : Expression) : e ∈ e.nodes := by
  cases e <;> simp [nodes]

theorem nodes_subset {e n : Expression} (h : n ∈ e.nodes) : n.nodes ⊆ e.nodes := by
  induction e with
  | binary operator left right ihl ihr =>
    simp only [nodes, List.mem_cons, List.mem_append] at h
    rcases h with rfl | h | h
    · exact fun _ hm => hm
    · exact fun m hm => by simp [nodes, ihl h hm]
    · exact fun m hm => by simp [nodes, ihr h hm]
  | unary operator leading operand ih =>
    rcases List.mem_cons.mp h with rfl | h
    · exact fun _ hm => hm
    · exact fun m hm => List.mem_cons_of_mem _ (ih h hm)
  | assignment operator left right ihl ihr =>
    simp only [nodes, List.mem_cons, List.mem_append] at h
    rcases h with rfl | h | h
    · exact fun _ hm => hm
    · exact fun m hm => by simp [nodes, ihl h hm]
    · exact fun m hm => by simp [nodes, ihr h hm]
  | conditional condition consequent alternate ihc ihl ihr =>
    simp only [nodes, List.mem_cons, List.mem_append] at h
    rcases h with rfl | (h | h) | h
    · exact fun _ hm => hm
    · exact fun m hm => by simp [nodes, ihc h hm]
    · exact fun m hm => by simp [nodes, ihl h hm]
    · exact fun m hm => by simp [nodes, ihr h hm]
  | call callee arguments ih =>
    simp only [nodes, nodesAll_eq, List.mem_cons, List.mem_flatMap] at h
    rcases h with rfl | ⟨e, he, h⟩
    · exact fun _ hm => hm
    · intro m hm
      rw [nodes, nodesAll_eq]
      exact List.mem_cons_of_mem _ (List.mem_flatMap.mpr ⟨e, he, ih e he h hm⟩)
  | element array index iha ihi =>
    simp only [nodes, List.mem_cons, List.mem_append] at h
    rcases h with rfl | h | h
    · exact fun _ hm => hm
    · exact fun m hm => by simp [nodes, iha h hm]
    · exact fun m hm => by simp [nodes, ihi h hm]
  | _ =>
    obtain rfl := List.mem_singleton.mp h
    exact fun _ hm => hm

end Expression

namespace Statement

/-- Induction on a statement. In a block the statement may be used of all members. -/
@[induction_eliminator]
theorem induct {motive : Statement → Prop}
    (block : ∀ body, (∀ s ∈ body, motive s) → motive (.block body))
    (branch : ∀ condition consequent alternate, motive consequent →
      (∀ s ∈ alternate, motive s) → motive (.branch condition consequent alternate))
    (forLoop : ∀ init condition update body, motive body →
      motive (.forLoop init condition update body))
    (whileLoop : ∀ condition body, motive body → motive (.whileLoop condition body))
    (returns : ∀ value, motive (.returns value)) (breaks : motive .breaks)
    (continues : motive .continues) (evaluate : ∀ expression, motive (.evaluate expression))
    (declare : ∀ declared, motive (.declare declared))
    (unsupported : ∀ kind, motive (.unsupported kind)) (s : Statement) : motive s := by
  refine @Statement.rec motive (fun body => ∀ s ∈ body, motive s)
    (fun alternate => ∀ s ∈ alternate, motive s) block branch forLoop whileLoop returns breaks
    continues evaluate declare unsupported ?_ ?_ ?_ ?_ s
  · intro s hs
    cases hs
  · intro head tail hhead htail s hs
    rcases List.mem_cons.mp hs with rfl | hs
    · exact hhead
    · exact htail s hs
  · intro s hs
    cases hs
  · intro alternate halternate s hs
    obtain rfl := Option.mem_some.mp hs
    exact halternate

mutual

/-- The statement and all statements inside it. -/
def nodes : Statement → List Statement
  | block body => block body :: nodesAll body
  | branch condition consequent none => branch condition consequent none :: consequent.nodes
  | branch condition consequent (some alternate) =>
    branch condition consequent (some alternate) :: (consequent.nodes ++ alternate.nodes)
  | forLoop init condition update body => forLoop init condition update body :: body.nodes
  | whileLoop condition body => whileLoop condition body :: body.nodes
  | s => [s]

def nodesAll : List Statement → List Statement
  | [] => []
  | s :: rest => s.nodes ++ nodesAll rest

end

theorem nodesAll_eq (body : List Statement) : nodesAll body = body.flatMap nodes := by
  induction body with
  | nil => rfl
  | cons s rest ih => rw [nodesAll, ih, List.flatMap_cons]

theorem self_mem_nodes (s : Statement) : s ∈ s.nodes := by
  rcases s with body | ⟨condition, consequent, alternate⟩ | _ | _ | _ | _ | _ | _ | _ | _
  case branch => cases alternate <;> simp [nodes]
  all_goals simp [nodes]

theorem nodes_subset_block {s : Statement} {body : List Statement} (h : s ∈ body) :
    s.nodes ⊆ (block body).nodes := by
  intro n hn
  rw [nodes, nodesAll_eq]
  exact List.mem_cons_of_mem _ (List.mem_flatMap.mpr ⟨s, h, hn⟩)

theorem nodes_subset_consequent (condition : Expression) (consequent : Statement)
    (alternate : Option Statement) :
    consequent.nodes ⊆ (branch condition consequent alternate).nodes := by
  intro n hn
  cases alternate <;> simp [nodes, hn]

theorem nodes_subset_alternate (condition : Expression) (consequent alternate : Statement) :
    alternate.nodes ⊆ (branch condition consequent (some alternate)).nodes := by
  intro n hn
  simp [nodes, hn]

/-- The expressions of a statement that are not in a statement inside it. -/
def expressions : Statement → List Expression
  | branch condition _ _ => [condition]
  | forLoop init condition update _ => init.toList ++ condition.toList ++ update.toList
  | whileLoop condition _ => [condition]
  | returns value => value.toList
  | evaluate expression => [expression]
  | declare declared => declared.initial.toList
  | block _ | breaks | continues | unsupported _ => []

end Statement

end Advisor
