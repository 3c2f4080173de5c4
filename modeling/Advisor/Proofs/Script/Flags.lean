import Advisor.Proofs.Script.Nodes
import Advisor.Render.Statement
import Mathlib.Data.List.Basic

/-!
# Scripts without inputs

Every variable of a script carries a flag that tells whether it is an input, those inside functions
as well. Without the flags the statements of a script are written as before.
-/

namespace Advisor

/-- The variable, but not as an input. -/
def Variable.unflagged (v : Variable) : Variable := { v with isInput := false }

namespace Statement

mutual

/-- The statement without any input among its variables. -/
def unflagged : Statement → Statement
  | block body => block (unflaggedAll body)
  | branch condition consequent none => branch condition consequent.unflagged none
  | branch condition consequent (some alternate) =>
    branch condition consequent.unflagged (some alternate.unflagged)
  | forLoop init condition update body => forLoop init condition update body.unflagged
  | whileLoop condition body => whileLoop condition body.unflagged
  | returns value => returns value
  | breaks => breaks
  | continues => continues
  | evaluate expression => evaluate expression
  | declare declared => declare declared.unflagged
  | unsupported kind => unsupported kind

def unflaggedAll : List Statement → List Statement
  | [] => []
  | s :: rest => s.unflagged :: unflaggedAll rest

end

private theorem unflaggedAll_eq (body : List Statement) :
    unflaggedAll body = body.map unflagged := by
  induction body with
  | nil => rfl
  | cons s rest ih => rw [unflaggedAll, ih, List.map_cons]

end Statement

def Function.unflagged (f : Function) : Function := { f with body := f.body.unflagged }

def Declaration.unflagged : Declaration → Declaration
  | .variable declared => .variable declared.unflagged
  | .function declared => .function declared.unflagged
  | .unsupported kind => .unsupported kind

/-- The script without any input. -/
def Script.unflagged (script : Script) : Script :=
  ⟨script.name, script.declarations.map Declaration.unflagged⟩

section Render

variable (c : Context)

private theorem Variable.renderInitial_unflagged (v : Variable) :
    v.unflagged.renderInitial c = v.renderInitial c := rfl

private theorem Statement.isBranch_unflagged (s : Statement) :
    s.unflagged.isBranch = s.isBranch := by
  cases s with
  | branch condition consequent alternate =>
    cases alternate with
    | none => rfl
    | some alternate => rfl
  | _ => rfl

/-- The flags of local variables are not written, by induction on the statement. -/
theorem Statement.lines_unflagged (s : Statement) : s.unflagged.lines c = s.lines c := by
  induction s with
  | block body ih =>
    rw [unflagged, lines, lines, linesAll_eq, linesAll_eq, unflaggedAll_eq, List.flatMap_map]
    exact List.flatMap_congr ih
  | branch condition consequent alternate ihc iha =>
    cases alternate with
    | none => rw [unflagged, lines, lines, ihc]
    | some alternate =>
      rw [unflagged, lines, lines, ihc, iha alternate rfl, otherwise, otherwise,
        isBranch_unflagged]
  | forLoop init condition update body ih => rw [unflagged, lines, lines, ih]
  | whileLoop condition body ih => rw [unflagged, lines, lines, ih]
  | declare declared =>
    rw [unflagged, lines, lines, declared.renderInitial_unflagged]
    rfl
  | returns | breaks | continues | evaluate | unsupported => rw [unflagged]

private theorem Function.lines_unflagged (f : Function) : f.unflagged.lines c = f.lines c := by
  rw [lines, lines, unflagged, Statement.lines_unflagged]

theorem Function.render_comp_unflagged (depth : Nat) :
    render c depth ∘ unflagged = render c depth := by
  funext f
  rw [Function.comp_apply, render, lines_unflagged, render]

end Render

end Advisor
