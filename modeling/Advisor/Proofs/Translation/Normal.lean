import Advisor.Proofs.Partition.Warnings
import Advisor.Proofs.Translation.Reordering

/-!
# Scripts without collisions

The declarations of a script that are overruled leave nothing but warnings. Those that are left, each
in the order of its list, form a script of their own: it gives the same program and descriptors
without a warning, and there is nothing left to overrule in it.
-/

namespace Advisor

namespace Partition

/-- The last declarations of the names: first of the inputs, then of the globals, then of the
functions. -/
def winners (ds : List Declaration) (names : Names) : List Declaration :=
  ((names.inputs ++ names.globals).filterMap fun n => last (variablesNamed ds n)).map .variable
    ++ (names.functions.filterMap fun n => last (functionsNamed ds n)).map .function

/-- A list is determined by its names, since it holds the latest entry of each. -/
theorem Lists.filterMap_latest {α : Type} {name : α → String} {latest : String → Option α}
    {place : String → Nat} {kind : α → Prop} {entries : List α}
    (h : Lists name latest place kind entries) : (entries.map name).filterMap latest = entries := by
  have hlatest : ∀ a ∈ entries, latest (name a) = some a := fun a ha => ((h.mem_iff a).mp ha).1
  rw [List.filterMap_map, Function.comp_def, List.filterMap_congr hlatest, List.filterMap_some]

private theorem Settled.winners_eq {ds : List Declaration} {p : Partition} (h : Settled ds p) :
    winners ds p.names = (p.inputs ++ p.globals).map .variable ++ p.functions.map .function := by
  rw [winners, Partition.names, List.filterMap_append, h.inputs.filterMap_latest,
    h.globals.filterMap_latest, h.functions.filterMap_latest]

private theorem size_ofDeclarations (ds : List Declaration) :
    (ofDeclarations ds).size = ds.length := by
  rw [ofDeclarations, foldl_add_size]
  exact Nat.zero_add _

section Lists

variable (vs : List Variable) (fs : List Function)

private theorem variablesOf_map_append :
    variablesOf (vs.map .variable ++ fs.map .function) = vs := by
  have hvariables : (vs.map Declaration.variable).filterMap Declaration.toVariable? = vs := by
    rw [List.filterMap_map]
    exact List.filterMap_some
  have hfunctions : (fs.map Declaration.function).filterMap Declaration.toVariable? = [] := by
    simp [List.filterMap_eq_nil_iff, Declaration.toVariable?]
  rw [variablesOf, List.filterMap_append, hvariables, hfunctions, List.append_nil]

private theorem functionsOf_map_append :
    functionsOf (vs.map .variable ++ fs.map .function) = fs := by
  have hvariables : (vs.map Declaration.variable).filterMap Declaration.toFunction? = [] := by
    simp [List.filterMap_eq_nil_iff, Declaration.toFunction?]
  have hfunctions : (fs.map Declaration.function).filterMap Declaration.toFunction? = fs := by
    rw [List.filterMap_map]
    exact List.filterMap_some
  rw [functionsOf, List.filterMap_append, hvariables, hfunctions, List.nil_append]

end Lists

namespace Settled

variable {ds : List Declaration} {p : Partition}

private theorem distinct_winners (h : Settled ds p) : Distinct (winners ds p.names) where
  variableNames := by
    rw [h.winners_eq, variablesOf_map_append]
    exact h.variable_nodup
  functionNames := by
    rw [h.winners_eq, functionsOf_map_append]
    exact h.functions.nodup_names

private theorem filter_isInput (h : Settled ds p) :
    (p.inputs ++ p.globals).filter (·.isInput) = p.inputs ∧
      (p.inputs ++ p.globals).filter (!·.isInput) = p.globals := by
  have hinputs : ∀ v ∈ p.inputs, v.isInput = true := fun v hv => ((h.inputs.mem_iff v).mp hv).2
  have hglobals : ∀ v ∈ p.globals, v.isInput = false := fun v hv => ((h.globals.mem_iff v).mp hv).2
  rw [List.filter_append, List.filter_append]
  constructor
  · rw [List.filter_eq_self.mpr hinputs, List.filter_eq_nil_iff.mpr (by simpa using hglobals),
      List.append_nil]
  · rw [List.filter_eq_nil_iff.mpr (by simpa using hinputs),
      List.filter_eq_self.mpr (by simpa using hglobals), List.nil_append]

/-- Nothing overrules anything among the declarations that have won. -/
theorem ofDeclarations_winners (h : Settled ds p) :
    (ofDeclarations (winners ds p.names)).inputs = p.inputs ∧
      (ofDeclarations (winners ds p.names)).globals = p.globals ∧
      (ofDeclarations (winners ds p.names)).functions = p.functions ∧
      (ofDeclarations (winners ds p.names)).warnings = [] := by
  obtain ⟨hinputs, hglobals, hfunctions⟩ := h.distinct_winners.ofDeclarations_eq
  rw [inputsOf, h.winners_eq, variablesOf_map_append, h.filter_isInput.1] at hinputs
  rw [globalsOf, h.winners_eq, variablesOf_map_append, h.filter_isInput.2] at hglobals
  rw [h.winners_eq, functionsOf_map_append] at hfunctions
  rw [← h.winners_eq] at hinputs hglobals hfunctions
  refine ⟨hinputs, hglobals, hfunctions, ?_⟩
  have hsize := size_ofDeclarations (winners ds p.names)
  have hlength : (winners ds p.names).length
      = p.inputs.length + p.globals.length + p.functions.length := by
    rw [h.winners_eq, List.length_append, List.length_map, List.length_map, List.length_append]
  rw [size, hinputs, hglobals, hfunctions, hlength] at hsize
  exact List.eq_nil_of_length_eq_zero (by omega)

end Settled

end Partition

open Advisor.Partition

/-- The script of the declarations that are not overruled. -/
def Script.normal (script : Script) : Script :=
  ⟨script.name, winners script.declarations (ofDeclarations script.declarations).names⟩

namespace Translation

/-- A script and its normal form give the same program and the same descriptors. The normal form
gives no warning, and is its own normal form. -/
theorem ofScript_normal (script : Script) (settings : Settings)
    (htime : settings.includeTimestamp = false) (now now' : String) :
    (ofScript script.normal settings now').code = (ofScript script settings now).code ∧
      (ofScript script.normal settings now').descriptors
        = (ofScript script settings now).descriptors ∧
      (ofScript script.normal settings now').warnings = [] ∧
      script.normal.normal = script.normal := by
  have settled := ofDeclarations_settled script.declarations
  have settled' := ofDeclarations_settled script.normal.declarations
  obtain ⟨hinputs, hglobals, hfunctions, hwarnings⟩ :
      (ofDeclarations script.normal.declarations).inputs = _ ∧
        (ofDeclarations script.normal.declarations).globals = _ ∧
        (ofDeclarations script.normal.declarations).functions = _ ∧
        (ofDeclarations script.normal.declarations).warnings = [] :=
    settled.ofDeclarations_winners
  have hheader : header script.normal settings now' = header script settings now :=
    header_congr htime rfl
  obtain ⟨hcode, hdescriptors⟩ := ofScript_congr hinputs hglobals hfunctions hheader
  refine ⟨hcode, hdescriptors, ?_, ?_⟩
  · rw [ofScript, Scope.ofScript, hwarnings, List.map_nil]
  · have hdeclarations : script.normal.normal.declarations = script.normal.declarations :=
      calc winners script.normal.declarations (ofDeclarations script.normal.declarations).names
        _ = _ := settled'.winners_eq
        _ = _ := by rw [hinputs, hglobals, hfunctions]
        _ = script.normal.declarations := settled.winners_eq.symm
    exact congrArg (Script.mk script.name) hdeclarations

/-- A script with a variable that changes its kind, one that changes its type, and a function that is
declared twice. -/
def driftScript : Script :=
  ⟨some "Drift", [.variable ⟨"risk", "double", none, true⟩,
    .variable ⟨"lots", "double", none, false⟩, .function ⟨"OnTick", [], .block [], none⟩,
    .variable ⟨"risk", "double", some (.identifier "lots"), false⟩,
    .unsupported "StructDeclaration", .variable ⟨"lots", "int", none, false⟩,
    .function ⟨"OnTick", [], .evaluate (.identifier "risk"), none⟩]⟩

theorem driftScript_normal : timeless.includeTimestamp = false ∧
    driftScript.normal = ⟨some "Drift", [.variable ⟨"lots", "int", none, false⟩,
      .variable ⟨"risk", "double", some (.identifier "lots"), false⟩,
      .function ⟨"OnTick", [], .evaluate (.identifier "risk"), none⟩]⟩ ∧
    (ofScript driftScript timeless "").warnings.length = 4 ∧
    (ofScript driftScript.normal timeless "").code = (ofScript driftScript timeless "").code ∧
    (ofScript driftScript.normal timeless "").warnings = [] := by
  obtain ⟨hcode, -, hwarnings, -⟩ := ofScript_normal driftScript timeless rfl "" ""
  exact ⟨rfl, rfl, rfl, hcode, hwarnings⟩

end Translation

end Advisor
