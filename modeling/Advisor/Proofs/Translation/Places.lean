import Advisor.Proofs.Partition.LastWins
import Advisor.Proofs.Translation.Sections

/-!
# Places for expressions in a program

The expressions of a script stand in the bodies of its functions and in what its variables begin
with. The former are rendered inside the methods of the program and the latter inside the lines of
its constructor, each in one place.
-/

namespace Advisor

/-- The variables in the order in which the constructor assigns their fields. -/
def Partition.assigned (p : Partition) : List Variable := p.inputs ++ p.globals

/-- The line of the constructor that assigns the field of the variable. -/
def Variable.assignment (c : Context) (v : Variable) : Line :=
  if v.isInput then Translation.assignInput (v.slot c) else Translation.assignGlobal (v.slot c)

private theorem Variable.exists_print_assignment (c : Context) (v : Variable) :
    ∃ front, ∀ e : Expression,
    (Variable.assignment c { v with initial := some e }).print c.settings 2
      = front ++ e.render c ++ ";" := by
  obtain ⟨name, type, initial, isInput⟩ := v
  cases isInput with
  | true =>
    refine ⟨c.settings.indentation 2 ++ "this." ++ name ++ " = "
      ++ (Translation.parametersArgument ++ "." ++ name) ++ " !== undefined ? "
      ++ (Translation.parametersArgument ++ "." ++ name) ++ " : ", fun e => ?_⟩
    simp [assignment, Translation.assignInput, Line.print, slot, renderInitial, String.append_assoc]
  | false =>
    refine ⟨c.settings.indentation 2 ++ "this." ++ name ++ " = ", fun e => ?_⟩
    simp [assignment, Translation.assignGlobal, Line.print, slot, renderInitial,
      String.append_assoc]

namespace Translation

private theorem assignments_ofScript (script : Script) (settings : Settings) :
    assignments (Scope.ofScript script settings) = assignApi ::
      (Partition.ofDeclarations script.declarations).assigned.map
        (Variable.assignment (Scope.contextOf script settings)) := by
  have settled := Partition.ofDeclarations_settled script.declarations
  have hinputs : (Partition.ofDeclarations script.declarations).inputs.map
      (fun v => assignInput (v.slot (Scope.contextOf script settings)))
        = (Partition.ofDeclarations script.declarations).inputs.map
          (Variable.assignment (Scope.contextOf script settings)) := by
    apply List.map_congr_left
    intro v hv
    have hflag : v.isInput = true := ((settled.inputs.mem_iff v).mp hv).2
    rw [Variable.assignment, if_pos hflag]
  have hglobals : (Partition.ofDeclarations script.declarations).globals.map
      (fun v => assignGlobal (v.slot (Scope.contextOf script settings)))
        = (Partition.ofDeclarations script.declarations).globals.map
          (Variable.assignment (Scope.contextOf script settings)) := by
    apply List.map_congr_left
    intro v hv
    have hflag : v.isInput = false := ((settled.globals.mem_iff v).mp hv).2
    rw [Variable.assignment, hflag, if_neg Bool.false_ne_true]
  rw [assignments, Partition.assigned, List.map_append, ← hinputs, ← hglobals]
  simp only [Scope.ofScript, List.map_map]
  rfl

theorem exists_code_eq_assignments (script : Script) (settings : Settings) (now : String) :
    ∃ above below : List String, (ofScript script settings now).code
      = Text.followed "\n" (above
        ++ (Partition.ofDeclarations script.declarations).assigned.map
          (fun v => (v.assignment (Scope.contextOf script settings)).print settings 2)
        ++ below) := by
  have hlines := assignments_ofScript script settings
  have hbraced : ∃ above below : List Line, lines script settings now = above
      ++ (Partition.ofDeclarations script.declarations).assigned.map
        (fun v => (v.assignment (Scope.contextOf script settings)).deeper.deeper)
      ++ below := by
    refine ⟨header script settings now
      ++ [⟨0, "class " ++ settings.className ++ " \x7b"⟩,
        ⟨1, "constructor(" ++ parametersArgument ++ " = \x7b\x7d, " ++ Host.apiField ++ ") "
          ++ "\x7b"⟩, assignApi.deeper.deeper],
      Line.close.map Line.deeper
        ++ (Scope.ofScript script settings).functions.flatMap
          (methodLines (Scope.ofScript script settings))
        ++ [⟨0, "\x7d"⟩, ⟨0, ""⟩, ⟨0, "module.exports = " ++ settings.className ++ ";"⟩], ?_⟩
    rw [lines, constructorLines, Line.braced, hlines]
    simp [Function.comp_def, Line.deeper]
  obtain ⟨above, below, hall⟩ := hbraced
  refine ⟨above.map (Line.print settings 0), below.map (Line.print settings 0), ?_⟩
  have hprint (l : Line) : l.deeper.deeper.print settings 0 = l.print settings 2 := by
    rw [Line.print_deeper, Line.print_deeper]
  rw [code_eq_followed, hall, List.map_append, List.map_append, List.map_map]
  simp only [Function.comp_def, hprint]

end Translation

/-- A place for an expression in the body of a function or in what a variable of the script begins
with. -/
inductive Site where
  | body (owner : Function) (hole : Hole)
  | initial (owner : Variable) (frames : List Expression.Frame)

namespace Site

/-- The place is in a function or a variable that the script keeps, and the expression stands
there. -/
def Holds (script : Script) (e : Expression) : Site → Prop
  | body owner hole =>
    owner ∈ (Partition.ofDeclarations script.declarations).functions ∧ owner.body = hole.fill e
  | initial owner frames =>
    owner ∈ (Partition.ofDeclarations script.declarations).assigned ∧
      owner.initial = some (frames.foldr Expression.Frame.fill e)

/-- The method or the line of the constructor that the place is in, with an expression there. -/
def text (c : Context) (e : Expression) : Site → String
  | body owner hole => Function.render c 1 { owner with body := hole.fill e }
  | initial owner frames =>
    (Variable.assignment c
      { owner with initial := some (frames.foldr Expression.Frame.fill e) }).print c.settings 2

theorem exists_text (c : Context) (site : Site) : ∃ pre post, ∀ e, ∃ blank ∈ ["", " "],
    site.text c e = pre ++ blank ++ e.render c ++ post := by
  cases site with
  | body owner hole => exact hole.exists_render_method c owner 1
  | initial owner frames =>
    obtain ⟨front, hfront⟩ := owner.exists_print_assignment c
    obtain ⟨pre, post, hframes⟩ := Expression.Frame.exists_render_foldr c frames
    refine ⟨front ++ pre, post ++ ";", fun e => ?_⟩
    obtain ⟨blank, hblank, htext⟩ := hframes e
    refine ⟨blank, hblank, ?_⟩
    rw [text, hfront, htext]
    simp only [String.append_assoc]

private theorem Holds.exists_code {script : Script} {e : Expression} {site : Site}
    (h : site.Holds script e) (settings : Settings) (now : String) :
    ∃ before after, (Translation.ofScript script settings now).code
      = before ++ site.text (Scope.contextOf script settings) e ++ after := by
  cases site with
  | body owner hole =>
    obtain ⟨howner, hbody⟩ := h
    rw [text, ← hbody]
    exact Translation.exists_program_eq script settings now howner
  | initial owner frames =>
    obtain ⟨howner, hinitial⟩ := h
    obtain ⟨above, below, hcode⟩ := Translation.exists_code_eq_assignments script settings now
    obtain ⟨earlier, later, hassigned⟩ := List.append_of_mem howner
    rw [text, ← hinitial, hcode, hassigned, List.map_append, List.map_cons, ← List.append_assoc,
      List.append_assoc _ (_ :: _), List.cons_append, Text.followed_append, Text.followed]
    exact ⟨_, _, by simp only [String.append_assoc]; rfl⟩

/-- Where an expression stands in the program, any other would stand in the same text. -/
theorem Holds.exists_place {script : Script} {e : Expression} {site : Site}
    (h : site.Holds script e) (settings : Settings) (now : String) :
    ∃ before pre post after : String,
      (∃ blank ∈ ["", " "], (Translation.ofScript script settings now).code
        = before ++ pre ++ blank ++ e.render (Scope.contextOf script settings) ++ post ++ after) ∧
      ∀ e', ∃ blank ∈ ["", " "], site.text (Scope.contextOf script settings) e'
        = pre ++ blank ++ e'.render (Scope.contextOf script settings) ++ post := by
  obtain ⟨before, after, hcode⟩ := h.exists_code settings now
  obtain ⟨pre, post, hplace⟩ := site.exists_text (Scope.contextOf script settings)
  obtain ⟨blank, hblank, htext⟩ := hplace e
  refine ⟨before, pre, post, after, ⟨blank, hblank, ?_⟩, hplace⟩
  rw [hcode, htext]
  simp only [String.append_assoc]

end Site

end Advisor
