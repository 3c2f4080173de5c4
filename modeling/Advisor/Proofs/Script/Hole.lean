import Advisor.Proofs.Script.Nodes

/-!
# Holes

A hole is a place for an expression inside a statement, given by the frames around it from the
outside to the inside. The frames also tell which local variables have been declared on the way to
the hole: those in front of it in its own block and in the blocks around that one.
-/

namespace Advisor

/-- One node around a place for an expression. -/
inductive Expression.Frame where
  | left (operator : String) (right : Expression)
  | right (operator : String) (left : Expression)
  | operand (operator : String) (leading : Bool)
  | target (operator : String) (source : Expression)
  | source (operator : String) (target : Expression)
  | condition (consequent alternate : Expression)
  | consequent (condition alternate : Expression)
  | alternate (condition consequent : Expression)
  | argument (callee : String) (before after : List Expression)
  | array (index : Expression)
  | index (array : Expression)

def Expression.Frame.fill : Expression.Frame → Expression → Expression
  | left op r, e => .binary op e r
  | right op l, e => .binary op l e
  | operand op leading, e => .unary op leading e
  | target op r, e => .assignment op e r
  | source op l, e => .assignment op l e
  | condition a b, e => .conditional e a b
  | consequent c b, e => .conditional c e b
  | alternate c a, e => .conditional c a e
  | argument callee before after, e => .call callee (before ++ e :: after)
  | array i, e => .element e i
  | index a, e => .element a e

namespace Statement

/-- One statement around a place for a statement. -/
inductive Frame where
  | member (before after : List Statement)
  | consequent (condition : Expression) (alternate : Option Statement)
  | alternate (condition : Expression) (consequent : Statement)
  | forBody (init condition update : Option Expression)
  | whileBody (condition : Expression)

/-- A statement around a place for an expression of its own. -/
inductive Place where
  | condition (consequent : Statement) (alternate : Option Statement)
  | forInit (condition update : Option Expression) (body : Statement)
  | forCondition (init update : Option Expression) (body : Statement)
  | forUpdate (init condition : Option Expression) (body : Statement)
  | whileCondition (body : Statement)
  | returned
  | evaluated
  | initial (name type : String) (isInput : Bool)

def Frame.fill : Frame → Statement → Statement
  | member before after, s => .block (before ++ s :: after)
  | consequent c b, s => .branch c s b
  | alternate c a, s => .branch c a (some s)
  | forBody init condition update, s => .forLoop init condition update s
  | whileBody condition, s => .whileLoop condition s

def Place.fill : Place → Expression → Statement
  | condition a b, e => .branch e a b
  | forInit test update body, e => .forLoop (some e) test update body
  | forCondition init update body, e => .forLoop init (some e) update body
  | forUpdate init test body, e => .forLoop init test (some e) body
  | whileCondition body, e => .whileLoop e body
  | returned, e => .returns (some e)
  | evaluated, e => .evaluate e
  | initial name type isInput, e => .declare ⟨name, type, some e, isInput⟩

def declared? : Statement → Option String
  | declare declared => some declared.name
  | _ => none

/-- The local variables that are declared in front of the place, in the same block. -/
def Frame.declared : Frame → List String
  | member before _ => before.filterMap declared?
  | _ => []

end Statement

/-- A place for an expression inside a statement. -/
structure Hole where
  statements : List Statement.Frame
  place : Statement.Place
  expressions : List Expression.Frame

namespace Hole

def fill (h : Hole) (e : Expression) : Statement :=
  h.statements.foldr Statement.Frame.fill
    (h.place.fill (h.expressions.foldr Expression.Frame.fill e))

/-- The local variables that can be seen from the hole. -/
def declared (h : Hole) : List String := h.statements.flatMap Statement.Frame.declared

end Hole

/-- Every expression inside another one fills a place in it. -/
theorem Expression.exists_frames {e n : Expression} (h : n ∈ e.nodes) :
    ∃ frames : List Frame, e = frames.foldr Frame.fill n := by
  induction e with
  | binary operator left right ihl ihr =>
    simp only [nodes, List.mem_cons, List.mem_append] at h
    rcases h with rfl | h | h
    · exact ⟨[], rfl⟩
    · obtain ⟨frames, rfl⟩ := ihl h
      exact ⟨.left operator right :: frames, rfl⟩
    · obtain ⟨frames, rfl⟩ := ihr h
      exact ⟨.right operator left :: frames, rfl⟩
  | unary operator leading operand ih =>
    rcases List.mem_cons.mp h with rfl | h
    · exact ⟨[], rfl⟩
    · obtain ⟨frames, rfl⟩ := ih h
      exact ⟨.operand operator leading :: frames, rfl⟩
  | assignment operator left right ihl ihr =>
    simp only [nodes, List.mem_cons, List.mem_append] at h
    rcases h with rfl | h | h
    · exact ⟨[], rfl⟩
    · obtain ⟨frames, rfl⟩ := ihl h
      exact ⟨.target operator right :: frames, rfl⟩
    · obtain ⟨frames, rfl⟩ := ihr h
      exact ⟨.source operator left :: frames, rfl⟩
  | conditional condition consequent alternate ihc ihl ihr =>
    simp only [nodes, List.mem_cons, List.mem_append] at h
    rcases h with rfl | (h | h) | h
    · exact ⟨[], rfl⟩
    · obtain ⟨frames, rfl⟩ := ihc h
      exact ⟨.condition consequent alternate :: frames, rfl⟩
    · obtain ⟨frames, rfl⟩ := ihl h
      exact ⟨.consequent condition alternate :: frames, rfl⟩
    · obtain ⟨frames, rfl⟩ := ihr h
      exact ⟨.alternate condition consequent :: frames, rfl⟩
  | call callee arguments ih =>
    simp only [nodes, nodesAll_eq, List.mem_cons, List.mem_flatMap] at h
    rcases h with rfl | ⟨e, he, h⟩
    · exact ⟨[], rfl⟩
    · obtain ⟨frames, hfill⟩ := ih e he h
      obtain ⟨before, after, rfl⟩ := List.append_of_mem he
      exact ⟨.argument callee before after :: frames, by rw [List.foldr_cons, ← hfill]; rfl⟩
  | element array index iha ihi =>
    simp only [nodes, List.mem_cons, List.mem_append] at h
    rcases h with rfl | h | h
    · exact ⟨[], rfl⟩
    · obtain ⟨frames, rfl⟩ := iha h
      exact ⟨.array index :: frames, rfl⟩
    · obtain ⟨frames, rfl⟩ := ihi h
      exact ⟨.index array :: frames, rfl⟩
  | _ =>
    obtain rfl := List.mem_singleton.mp h
    exact ⟨[], rfl⟩

namespace Statement

theorem exists_place {s : Statement} {e : Expression} (h : e ∈ s.expressions) :
    ∃ place : Place, s = place.fill e := by
  cases s with
  | branch condition consequent alternate =>
    obtain rfl := List.mem_singleton.mp h
    exact ⟨.condition consequent alternate, rfl⟩
  | forLoop init condition update body =>
    simp only [expressions, List.mem_append, Option.mem_toList] at h
    rcases h with (rfl | rfl) | rfl
    · exact ⟨.forInit condition update body, rfl⟩
    · exact ⟨.forCondition init update body, rfl⟩
    · exact ⟨.forUpdate init condition body, rfl⟩
  | whileLoop condition body =>
    obtain rfl := List.mem_singleton.mp h
    exact ⟨.whileCondition body, rfl⟩
  | returns value =>
    obtain rfl := Option.mem_toList.mp h
    exact ⟨.returned, rfl⟩
  | evaluate expression =>
    obtain rfl := List.mem_singleton.mp h
    exact ⟨.evaluated, rfl⟩
  | declare declared =>
    obtain ⟨name, type, initial, isInput⟩ := declared
    obtain rfl : initial = some e := Option.mem_toList.mp h
    exact ⟨.initial name type isInput, rfl⟩
  | _ => exact absurd h List.not_mem_nil

private theorem exists_frames {s n : Statement} (h : n ∈ s.nodes) :
    ∃ frames : List Frame, s = frames.foldr Frame.fill n := by
  induction s with
  | block body ih =>
    simp only [nodes, nodesAll_eq, List.mem_cons, List.mem_flatMap] at h
    rcases h with rfl | ⟨s, hs, h⟩
    · exact ⟨[], rfl⟩
    · obtain ⟨frames, hfill⟩ := ih s hs h
      obtain ⟨before, after, rfl⟩ := List.append_of_mem hs
      exact ⟨.member before after :: frames, by rw [List.foldr_cons, ← hfill]; rfl⟩
  | branch condition consequent alternate ihc iha =>
    cases alternate with
    | none =>
      rcases List.mem_cons.mp h with rfl | h
      · exact ⟨[], rfl⟩
      · obtain ⟨frames, rfl⟩ := ihc h
        exact ⟨.consequent condition none :: frames, rfl⟩
    | some alternate =>
      simp only [nodes, List.mem_cons, List.mem_append] at h
      rcases h with rfl | h | h
      · exact ⟨[], rfl⟩
      · obtain ⟨frames, rfl⟩ := ihc h
        exact ⟨.consequent condition (some alternate) :: frames, rfl⟩
      · obtain ⟨frames, rfl⟩ := iha alternate rfl h
        exact ⟨.alternate condition consequent :: frames, rfl⟩
  | forLoop init condition update body ih =>
    rcases List.mem_cons.mp h with rfl | h
    · exact ⟨[], rfl⟩
    · obtain ⟨frames, rfl⟩ := ih h
      exact ⟨.forBody init condition update :: frames, rfl⟩
  | whileLoop condition body ih =>
    rcases List.mem_cons.mp h with rfl | h
    · exact ⟨[], rfl⟩
    · obtain ⟨frames, rfl⟩ := ih h
      exact ⟨.whileBody condition :: frames, rfl⟩
  | _ =>
    obtain rfl := List.mem_singleton.mp h
    exact ⟨[], rfl⟩

end Statement

/-- Every expression at any depth of a statement fills a hole in it. -/
theorem Hole.exists_fill {s n : Statement} {e o : Expression} (hn : n ∈ s.nodes)
    (he : e ∈ n.expressions) (ho : o ∈ e.nodes) : ∃ h : Hole, s = h.fill o := by
  obtain ⟨statements, rfl⟩ := Statement.exists_frames hn
  obtain ⟨place, rfl⟩ := Statement.exists_place he
  obtain ⟨frames, rfl⟩ := Expression.exists_frames ho
  exact ⟨⟨statements, place, frames⟩, rfl⟩

end Advisor
