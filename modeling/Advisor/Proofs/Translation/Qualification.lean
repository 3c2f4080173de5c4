import Advisor.Proofs.Partition.Selection
import Advisor.Proofs.Render.Dependence
import Advisor.Proofs.Translation.Sections

/-!
# Qualified inputs

Where inputs are qualified they are written like globals, and where they are not, like names that the
script does not declare. So the methods and the initial values are those of a script without inputs:
in the first case of the one in which all inputs have become globals, in the second of the one from
which they are gone.
-/

namespace Advisor

open Advisor.Partition

/-- The settings with inputs qualified or not. -/
def Settings.qualifying (settings : Settings) (qualify : Bool) : Settings :=
  { settings with qualifyInputs := qualify }

namespace Context

variable {c c' : Context}

/-- Whether the name is written as a field. -/
def isField (c : Context) (name : String) : Bool :=
  c.names.isGlobal name || (c.settings.qualifyInputs && c.names.isInput name)

/-- Contexts with the same fields and functions write alike, however they come by them. -/
theorem writeAlike_of_fields (hfields : ∀ name, c.isField name = c'.isField name)
    (hqualify : c.settings.qualifyUserFunctions = c'.settings.qualifyUserFunctions)
    (hfunctions : ∀ name, c.names.isFunction name = c'.names.isFunction name) (e : Expression) :
    c.WriteAlike c' e := by
  have hidentifier (name : String) : c.identifier name = c'.identifier name := by
    have hfield := hfields name
    rw [isField, isField] at hfield
    rw [identifier, identifier, hfield]
  have hcallee (name : String) : c.callee name = c'.callee name := by
    rw [callee, callee, hqualify, hfunctions]
  cases e with
  | identifier name => exact hidentifier name
  | call callee arguments => exact hcallee callee
  | _ => trivial

end Context

section Alike

variable {c c' : Context} (h : ∀ e, c.WriteAlike c' e)

include h

private theorem Variable.slot_congr : slot c = slot c' := by
  funext v
  rw [slot, slot, renderInitial_congr fun _ _ n _ => h n]

theorem Function.render_congr (hindent : c.settings.indent = c'.settings.indent) (depth : Nat) :
    render c depth = render c' depth := by
  have hprint : Line.print c.settings depth = Line.print c'.settings depth := by
    funext l
    rw [Line.print, Line.print, Settings.indentation, Settings.indentation, hindent]
  funext f
  rw [render, render, lines_congr fun n _ => h n, Line.printAll, Line.printAll, hprint]

end Alike

/-- Whether the last variable of the name is an input. -/
def Partition.endsAsInput (ds : List Declaration) (name : String) : Bool :=
  (last (variablesNamed ds name)).any (·.isInput)

/-- The script without all variables of every name that is an input in the end. -/
def Script.withoutInputs (script : Script) : Script :=
  ⟨script.name, script.declarations.filter (keeps fun n => !endsAsInput script.declarations n)⟩

section Lists

variable (script : Script)

private theorem Script.ofDeclarations_withoutInputs :
    (ofDeclarations script.withoutInputs.declarations).inputs = [] ∧
      (ofDeclarations script.withoutInputs.declarations).globals
        = (ofDeclarations script.declarations).globals ∧
      (ofDeclarations script.withoutInputs.declarations).functions
        = (ofDeclarations script.declarations).functions := by
  have settled := ofDeclarations_settled script.declarations
  obtain ⟨hinputs, hglobals, hfunctions⟩ :=
    ofDeclarations_filter_keeps (fun n => !endsAsInput script.declarations n) script.declarations
  refine ⟨hinputs.trans ?_, hglobals.trans ?_, hfunctions⟩
  · rw [kept, List.filter_eq_nil_iff]
    intro v hv
    obtain ⟨hlast, hflag⟩ := (settled.inputs.mem_iff v).mp hv
    simp [endsAsInput, hlast, hflag]
  · rw [kept, List.filter_eq_self]
    intro v hv
    obtain ⟨hlast, hflag⟩ := (settled.globals.mem_iff v).mp hv
    simp [endsAsInput, hlast, hflag]

end Lists

namespace Translation

section

variable (script : Script) (settings : Settings) (qualify : Bool)

private theorem writeAlike_unflagged (e : Expression) :
    (Scope.contextOf script.unflagged (settings.qualifying qualify)).WriteAlike
      (Scope.contextOf script (settings.qualifying true)) e := by
  obtain ⟨hinputs, hglobals, hfunctions⟩ := ofDeclarations_map_unflagged script.declarations
  apply Context.writeAlike_of_fields
  · intro n
    have hnames : ((ofDeclarations script.unflagged.declarations).globals.map (·.name)).Perm
        (((ofDeclarations script.declarations).inputs
          ++ (ofDeclarations script.declarations).globals).map (·.name)) := by
      have hperm := hglobals.map (·.name)
      rwa [List.map_map] at hperm
    have hmem := hnames.mem_iff (a := n)
    rw [List.map_append, List.mem_append] at hmem
    rw [Bool.eq_iff_iff]
    simp only [Context.isField, Scope.contextOf, Partition.names, Names.isGlobal, Names.isInput,
      Settings.qualifying, Script.unflagged, hinputs, List.map_nil, List.contains_nil,
      Bool.and_false, Bool.or_false, Bool.true_and, Bool.or_eq_true, List.contains_iff_mem]
    exact hmem.trans or_comm
  · rfl
  · intro n
    simp only [Scope.contextOf, Partition.names, Names.isFunction, Script.unflagged, hfunctions,
      List.map_map]
    rfl

private theorem writeAlike_withoutInputs (e : Expression) :
    (Scope.contextOf script.withoutInputs (settings.qualifying qualify)).WriteAlike
      (Scope.contextOf script (settings.qualifying false)) e := by
  obtain ⟨hinputs, hglobals, hfunctions⟩ := script.ofDeclarations_withoutInputs
  apply Context.writeAlike_of_fields
  · intro n
    simp only [Context.isField, Scope.contextOf, Partition.names, Names.isGlobal, Names.isInput,
      Settings.qualifying, hinputs, hglobals, List.map_nil, List.contains_nil, Bool.and_false,
      Bool.false_and, Bool.or_false]
  · rfl
  · intro n
    simp only [Scope.contextOf, Partition.names, Names.isFunction, hfunctions]

end

/-- Qualified inputs are written like globals: the script whose inputs are globals has, for each name,
the same initial value, and its program is the same from the first method on. Other inputs are
written like unknown names: the script without them has the same globals and the same methods. -/
theorem inputs_resolved (script : Script) (settings : Settings) (qualify : Bool) :
    (let scope := Scope.ofScript script (settings.qualifying true)
      let scope' := Scope.ofScript script.unflagged (settings.qualifying qualify)
      scope'.inputs = [] ∧ scope'.globals.Perm (scope.inputs ++ scope.globals) ∧
        SameEnding script (settings.qualifying true) script.unflagged
          (settings.qualifying qualify)) ∧
    (let scope := Scope.ofScript script (settings.qualifying false)
      let scope' := Scope.ofScript script.withoutInputs (settings.qualifying qualify)
      scope'.inputs = [] ∧ scope'.globals = scope.globals ∧
        SameEnding script (settings.qualifying false) script.withoutInputs
          (settings.qualifying qualify)) := by
  constructor
  · intro scope scope'
    obtain ⟨hinputs, hglobals, hfunctions⟩ := ofDeclarations_map_unflagged script.declarations
    have halike := writeAlike_unflagged script settings qualify
    have hslot : Variable.slot scope'.context ∘ Variable.unflagged = Variable.slot scope.context :=
      Variable.slot_congr halike
    have hrender : Function.render scope'.context 1 ∘ Function.unflagged
        = Function.render scope.context 1 :=
      (Function.render_comp_unflagged _ 1).trans (Function.render_congr halike rfl 1)
    have hslots := hglobals.map (Variable.slot scope'.context)
    have htexts := congrArg (List.map (Function.render scope'.context 1)) hfunctions
    rw [List.map_map, hslot, List.map_append] at hslots
    rw [List.map_map, hrender] at htexts
    exact ⟨congrArg (List.map _) hinputs, hslots, sameEnding_of_methodTexts rfl htexts.symm⟩
  · intro scope scope'
    obtain ⟨hinputs, hglobals, hfunctions⟩ := script.ofDeclarations_withoutInputs
    have halike := writeAlike_withoutInputs script settings qualify
    have hslot : Variable.slot scope'.context = Variable.slot scope.context :=
      Variable.slot_congr halike
    have hrender : Function.render scope'.context 1 = Function.render scope.context 1 :=
      Function.render_congr halike rfl 1
    have htexts : methodTexts script.withoutInputs (settings.qualifying qualify)
        = methodTexts script (settings.qualifying false) := congrArg₂ List.map hrender hfunctions
    exact ⟨congrArg (List.map _) hinputs, congrArg₂ List.map hslot hglobals,
      sameEnding_of_methodTexts rfl htexts.symm⟩

end Translation

end Advisor
