import Advisor.Proofs.Script.Paths
import Advisor.Render.Statement

/-!
# How deep rendering goes

A node is rendered through the nodes directly inside it, so a call for a node waits for calls for
those. Rendering with a bound on the calls that are open at a time gives the same text as rendering
without one, wherever no path down from the node has more nodes than the bound. The levels of lines
keep within it too.
-/

namespace Advisor

open Node (not_within_zero within_succ_iff)

variable {c : Context} {n : Nat}

private theorem mapM_eq_some_map {α β : Type} {f : α → Option β} {g : α → β} {as : List α}
    (h : ∀ a ∈ as, f a = some (g a)) : as.mapM f = some (as.map g) := by
  induction as with
  | nil => rfl
  | cons a as ih =>
    obtain ⟨ha, has⟩ := List.forall_mem_cons.mp h
    rw [List.mapM_cons, ha, ih has]
    rfl

namespace Expression

/-- The text of an expression, where `inner` gives the texts of those directly inside. -/
def renderVia (c : Context) (inner : Expression → Option String) : Expression → Option String
  | number value => some (Render.number value)
  | text value => some (Render.text value)
  | boolean value => some (if value then "true" else "false")
  | identifier name => some (c.identifier name)
  | binary operator left right => do
    let left ← inner left
    let right ← inner right
    return "(" ++ left ++ " " ++ operator ++ " " ++ right ++ ")"
  | unary operator true operand => do
    let text ← inner operand
    return operator ++ Render.gap operator text ++ text
  | unary operator false operand => do
    let text ← inner operand
    return text ++ operator
  | assignment operator left right => do
    let left ← inner left
    let right ← inner right
    return left ++ " " ++ operator ++ " " ++ right
  | conditional condition consequent alternate => do
    let condition ← inner condition
    let consequent ← inner consequent
    let alternate ← inner alternate
    return "(" ++ condition ++ " ? " ++ consequent ++ " : " ++ alternate ++ ")"
  | call callee arguments => do
    let arguments ← arguments.mapM inner
    return c.callee callee ++ "(" ++ Text.join ", " arguments ++ ")"
  | element array index => do
    let array ← inner array
    let index ← inner index
    return array ++ "[" ++ index ++ "]"
  | unsupported kind => some (Render.marker kind)

/-- The text of an expression, if no more than so many calls are open at a time. -/
def renderWithin (c : Context) : Nat → Expression → Option String
  | 0, _ => none
  | n + 1, e => renderVia c (renderWithin c n) e

private theorem renderVia_eq_some {inner : Expression → Option String} {e : Expression}
    (h : ∀ o ∈ e.operands, inner o = some (o.render c)) :
    renderVia c inner e = some (e.render c) := by
  cases e with
  | number | text | boolean | identifier | unsupported => rfl
  | binary operator left right | assignment operator left right | element left right =>
    simp only [operands, List.forall_mem_cons] at h
    simp [renderVia, h.1, h.2.1, render]
  | unary operator leading operand =>
    simp only [operands, List.forall_mem_cons] at h
    cases leading <;> simp [renderVia, h.1, render]
  | conditional condition consequent alternate =>
    simp only [operands, List.forall_mem_cons] at h
    simp [renderVia, h.1, h.2.1, h.2.2.1, render]
  | call callee arguments =>
    have harguments : arguments.mapM inner = some (arguments.map (render c)) := mapM_eq_some_map h
    simp [renderVia, harguments, render, renderAll_eq]

theorem renderWithin_eq_some {e : Expression} (h : (Node.expression e).Within n) :
    e.renderWithin c n = some (e.render c) := by
  induction n generalizing e with
  | zero => exact absurd h (not_within_zero _)
  | succ n ih =>
    rw [renderWithin]
    apply renderVia_eq_some
    intro o ho
    apply ih
    exact within_succ_iff.mp h _ (List.mem_map_of_mem ho)

end Expression

namespace Variable

/-- The text of the value that a variable begins with, if no more than so many calls are open at a
time. -/
def renderInitialWithin (c : Context) (n : Nat) (v : Variable) : Option String :=
  match v.initial with
  | some e => e.renderWithin c n
  | none => some (Host.typeDefault v.type)

theorem renderInitialWithin_eq_some {v : Variable}
    (h : ∀ e ∈ v.initial, e.renderWithin c n = some (e.render c)) :
    v.renderInitialWithin c n = some (v.renderInitial c) := by
  rw [renderInitialWithin, renderInitial]
  cases hinitial : v.initial with
  | none => rfl
  | some e => exact h e hinitial

end Variable

namespace Statement

/-- A clause in the head of a loop, if no more than so many calls are open at a time. -/
def clauseWithin (c : Context) (n : Nat) : Option Expression → Option String
  | some e => e.renderWithin c n
  | none => some ""

/-- The lines of a statement, where `inner` gives those of the statements directly inside and so
many calls may be open for the expressions. -/
def linesVia (c : Context) (n : Nat) (inner : Statement → Option (List Line)) :
    Statement → Option (List Line)
  | block body => do
    let parts ← body.mapM inner
    return parts.flatten
  | branch condition consequent none => do
    let condition ← condition.renderWithin c n
    let consequent ← inner consequent
    return Line.braced ("if (" ++ condition ++ ") ") consequent Line.close
  | branch condition consequent (some alternate) => do
    let condition ← condition.renderWithin c n
    let consequent ← inner consequent
    let rest ← inner alternate
    return Line.braced ("if (" ++ condition ++ ") ") consequent (otherwise alternate rest)
  | forLoop init condition update body => do
    let init ← clauseWithin c n init
    let condition ← clauseWithin c n condition
    let update ← clauseWithin c n update
    let body ← inner body
    return Line.braced ("for (" ++ init ++ "; " ++ condition ++ "; " ++ update ++ ") ") body
      Line.close
  | whileLoop condition body => do
    let condition ← condition.renderWithin c n
    let body ← inner body
    return Line.braced ("while (" ++ condition ++ ") ") body Line.close
  | returns (some value) => do
    let value ← value.renderWithin c n
    return [⟨0, "return " ++ value ++ ";"⟩]
  | returns none => some [⟨0, "return;"⟩]
  | breaks => some [⟨0, "break;"⟩]
  | continues => some [⟨0, "continue;"⟩]
  | evaluate expression => do
    let text ← expression.renderWithin c n
    return [⟨0, text ++ ";"⟩]
  | declare declared => do
    let initial ← declared.renderInitialWithin c n
    return [⟨0, "let " ++ declared.name ++ " = " ++ initial ++ ";"⟩]
  | unsupported kind => some [⟨0, "// Unsupported statement: " ++ kind⟩]

/-- The lines of a statement, if no more than so many calls are open at a time. -/
def linesWithin (c : Context) : Nat → Statement → Option (List Line)
  | 0, _ => none
  | n + 1, s => linesVia c n (linesWithin c n) s

private theorem clauseWithin_eq_some {clause : Option Expression}
    (h : ∀ e ∈ clause, e.renderWithin c n = some (e.render c)) :
    clauseWithin c n clause = some (Statement.clause c clause) := by
  cases clause with
  | none => rfl
  | some e => exact h e rfl

private theorem linesVia_eq_some {inner : Statement → Option (List Line)} {s : Statement}
    (hexpressions : ∀ e ∈ s.expressions, e.renderWithin c n = some (e.render c))
    (hinner : ∀ t ∈ s.inner, inner t = some (t.lines c)) :
    linesVia c n inner s = some (s.lines c) := by
  cases s with
  | block body =>
    have hbody : body.mapM inner = some (body.map (lines c)) := mapM_eq_some_map hinner
    simp [linesVia, hbody, lines, linesAll_eq, List.flatMap_def]
  | branch condition consequent alternate =>
    have hcondition := hexpressions condition List.mem_cons_self
    have hconsequent := hinner consequent List.mem_cons_self
    cases alternate with
    | none => simp [linesVia, hcondition, hconsequent, lines]
    | some alternate =>
      have halternate := hinner alternate (List.mem_cons_of_mem _ List.mem_cons_self)
      simp [linesVia, hcondition, hconsequent, halternate, lines]
  | forLoop init condition update body =>
    simp only [expressions, List.forall_mem_append, Option.mem_toList] at hexpressions
    obtain ⟨⟨hinit, hcondition⟩, hupdate⟩ := hexpressions
    simp [linesVia, clauseWithin_eq_some hinit, clauseWithin_eq_some hcondition,
      clauseWithin_eq_some hupdate, hinner body List.mem_cons_self, lines]
  | whileLoop condition body =>
    simp [linesVia, hexpressions condition List.mem_cons_self, hinner body List.mem_cons_self,
      lines]
  | returns value =>
    cases value with
    | none => rfl
    | some value => simp [linesVia, hexpressions value List.mem_cons_self, lines]
  | evaluate expression => simp [linesVia, hexpressions expression List.mem_cons_self, lines]
  | declare declared =>
    have hinitial := Variable.renderInitialWithin_eq_some (c := c) (n := n) (v := declared)
      fun e he => hexpressions e (Option.mem_toList.mpr he)
    simp [linesVia, hinitial, lines]
  | breaks | continues | unsupported => rfl

theorem linesWithin_eq_some {s : Statement} (h : (Node.statement s).Within n) :
    s.linesWithin c n = some (s.lines c) := by
  induction n generalizing s with
  | zero => exact absurd h (not_within_zero _)
  | succ n ih =>
    have hchildren := within_succ_iff.mp h
    simp only [Node.children, List.forall_mem_append, List.forall_mem_map] at hchildren
    rw [linesWithin]
    exact linesVia_eq_some (fun e he => Expression.renderWithin_eq_some (hchildren.1 e he))
      fun t ht => ih (hchildren.2 t ht)

end Statement

namespace Function

/-- The lines of a function as a method, if no more than so many calls are open at a time. -/
def linesWithin (c : Context) : Nat → Function → Option (List Line)
  | 0, _ => none
  | n + 1, f => do
    let body ← f.body.linesWithin c n
    return Line.braced (f.name ++ "(" ++ Text.join ", " (f.parameters.map (·.name)) ++ ") ") body
      Line.close

theorem linesWithin_eq_some {f : Function} (h : (Node.declaration (.function f)).Within n) :
    f.linesWithin c n = some (f.lines c) := by
  cases n with
  | zero => exact absurd h (not_within_zero _)
  | succ n =>
    have hbody := within_succ_iff.mp h _ (List.mem_singleton.mpr rfl)
    simp [linesWithin, Statement.linesWithin_eq_some hbody, lines]

end Function

/-- The lines stand at levels below the bound. -/
def Line.Below (n : Nat) (ls : List Line) : Prop := ∀ l ∈ ls, l.level < n

namespace Line.Below

variable {ls body closing : List Line}

theorem append {more : List Line} (h : Below n ls) (h' : Below n more) : Below n (ls ++ more) :=
  List.forall_mem_append.mpr ⟨h, h'⟩

theorem deeper (h : Below n ls) : Below (n + 1) (ls.map Line.deeper) :=
  List.forall_mem_map.mpr fun l hl => Nat.succ_lt_succ (h l hl)

theorem braced (hbody : Below n body) (hclosing : Below (n + 1) closing) (opening : String) :
    Below (n + 1) (Line.braced opening body closing) :=
  List.forall_mem_cons.mpr ⟨Nat.succ_pos n, hbody.deeper.append hclosing⟩

theorem close : Below (n + 1) Line.close := List.forall_mem_singleton.mpr (Nat.succ_pos n)

theorem lead (h : Below n ls) (text : String) : Below n (Line.lead text ls) := by
  cases ls with
  | nil => exact h
  | cons l rest => exact List.forall_mem_cons.mpr (List.forall_mem_cons.mp h)

end Line.Below

namespace Statement

private theorem below_otherwise {alternate : Statement} {ls : List Line} (h : Line.Below n ls) :
    Line.Below (n + 1) (otherwise alternate ls) := by
  rw [otherwise]
  split
  · exact fun l hl => Nat.lt_succ_of_lt (h.lead _ l hl)
  · exact h.braced .close _

/-- A line is no deeper than the path is long that leads to its statement. -/
theorem below_lines {s : Statement} (h : (Node.statement s).Within n) :
    Line.Below n (s.lines c) := by
  induction n generalizing s with
  | zero => exact absurd h (not_within_zero _)
  | succ n ih =>
    have hline (text : String) : Line.Below (n + 1) [⟨0, text⟩] :=
      List.forall_mem_singleton.mpr (Nat.succ_pos n)
    have hchildren := within_succ_iff.mp h
    simp only [Node.children, List.forall_mem_append, List.forall_mem_map] at hchildren
    have hinner : ∀ t ∈ s.inner, Line.Below n (t.lines c) := fun t ht => ih (hchildren.2 t ht)
    cases s with
    | block body =>
      rw [lines, linesAll_eq]
      exact List.forall_mem_flatMap.mpr fun t ht l hl => Nat.lt_succ_of_lt (hinner t ht l hl)
    | branch condition consequent alternate =>
      have hconsequent := hinner consequent List.mem_cons_self
      cases alternate with
      | none => exact hconsequent.braced .close _
      | some alternate =>
        have halternate := hinner alternate (List.mem_cons_of_mem _ List.mem_cons_self)
        exact hconsequent.braced (below_otherwise halternate) _
    | forLoop init condition update body =>
      exact (hinner body List.mem_cons_self).braced .close _
    | whileLoop condition body => exact (hinner body List.mem_cons_self).braced .close _
    | returns value => cases value <;> exact hline _
    | breaks | continues | evaluate | declare | unsupported => exact hline _

end Statement

theorem Function.below_lines {f : Function} (h : (Node.declaration (.function f)).Within n) :
    Line.Below n (f.lines c) := by
  cases n with
  | zero => exact absurd h (not_within_zero _)
  | succ n =>
    have hbody := within_succ_iff.mp h _ (List.mem_singleton.mpr rfl)
    exact (Statement.below_lines hbody).braced .close _

end Advisor
