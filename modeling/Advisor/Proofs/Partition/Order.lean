import Advisor.Partition
import Mathlib.Data.List.Perm.Basic

/-!
# The order of declarations

Variables and functions are placed apart from each other, and what is not supported is not placed at
all. So the lists of a partition depend on two sequences only, that of the variables and that of the
functions. If no name repeats in either, the lists are these sequences themselves, the inputs apart
from the globals.
-/

namespace Advisor

namespace Declaration

def toVariable? : Declaration → Option Variable
  | .variable declared => some declared
  | _ => none

def toFunction? : Declaration → Option Function
  | .function declared => some declared
  | _ => none

end Declaration

namespace Partition

/-- The variables that are declared, in order. -/
def variablesOf (ds : List Declaration) : List Variable := ds.filterMap Declaration.toVariable?

/-- The functions that are declared, in order. -/
def functionsOf (ds : List Declaration) : List Function := ds.filterMap Declaration.toFunction?

def inputsOf (ds : List Declaration) : List Variable := (variablesOf ds).filter (·.isInput)

def globalsOf (ds : List Declaration) : List Variable := (variablesOf ds).filter (!·.isInput)

section Apart

variable {p q : Partition}

/-- The partitions hold the same variables. -/
def SameVariables (p q : Partition) : Prop := p.inputs = q.inputs ∧ p.globals = q.globals

theorem SameVariables.addVariable (h : SameVariables p q) (v : Variable) :
    SameVariables (p.addVariable v) (q.addVariable v) := by
  obtain ⟨hinputs, hglobals⟩ := h
  rw [Partition.addVariable, Partition.addVariable, hinputs, hglobals]
  split
  · exact ⟨rfl, rfl⟩
  · exact ⟨rfl, rfl⟩

private theorem SameVariables.add_other (h : SameVariables p q) {d : Declaration}
    (hd : d.toVariable? = none) : SameVariables (p.add d) q := by
  rcases d with v | f | kind
  · simp [Declaration.toVariable?] at hd
  · rw [add, addFunction]
    split
    · exact h
    · exact h
  · exact h

private theorem foldl_add_sameVariables (h : SameVariables p q) (ds : List Declaration) :
    SameVariables (ds.foldl add p) ((variablesOf ds).foldl Partition.addVariable q) := by
  induction ds generalizing p q with
  | nil => exact h
  | cons d rest ih =>
    rw [List.foldl_cons, variablesOf, List.filterMap_cons]
    rcases d with v | f | kind
    · exact ih (h.addVariable v)
    · exact ih (h.add_other rfl)
    · exact ih (h.add_other rfl)

private theorem add_functions_other {d : Declaration} (hd : d.toFunction? = none) :
    (p.add d).functions = p.functions := by
  rcases d with v | f | kind
  · rw [add, addVariable]
    split
    · rfl
    · rfl
  · simp [Declaration.toFunction?] at hd
  · rfl

private theorem addFunction_functions (h : p.functions = q.functions) (f : Function) :
    (p.addFunction f).functions = (q.addFunction f).functions := by
  rw [addFunction, addFunction, h]
  split
  · rfl
  · rfl

private theorem foldl_add_functions (h : p.functions = q.functions) (ds : List Declaration) :
    (ds.foldl add p).functions = ((functionsOf ds).foldl addFunction q).functions := by
  induction ds generalizing p q with
  | nil => exact h
  | cons d rest ih =>
    rw [List.foldl_cons, functionsOf, List.filterMap_cons]
    rcases d with v | f | kind
    · exact ih ((add_functions_other rfl).trans h)
    · exact ih (addFunction_functions h f)
    · exact ih h

end Apart

theorem ofDeclarations_sameVariables (ds : List Declaration) :
    SameVariables (ofDeclarations ds) ((variablesOf ds).foldl addVariable empty) :=
  foldl_add_sameVariables ⟨rfl, rfl⟩ ds

theorem functions_ofDeclarations (ds : List Declaration) : (ofDeclarations ds).functions
    = ((functionsOf ds).foldl addFunction empty).functions :=
  foldl_add_functions rfl ds

theorem ofDeclarations_congr {ds ds' : List Declaration} (hvariables : variablesOf ds = variablesOf ds')
    (hfunctions : functionsOf ds = functionsOf ds') :
    (ofDeclarations ds).inputs = (ofDeclarations ds').inputs ∧
      (ofDeclarations ds).globals = (ofDeclarations ds').globals ∧
      (ofDeclarations ds).functions = (ofDeclarations ds').functions := by
  obtain ⟨hinputs, hglobals⟩ := ofDeclarations_sameVariables ds
  obtain ⟨hinputs', hglobals'⟩ := ofDeclarations_sameVariables ds'
  refine ⟨?_, ?_, ?_⟩
  · rw [hinputs, hinputs', hvariables]
  · rw [hglobals, hglobals', hvariables]
  · rw [functions_ofDeclarations, functions_ofDeclarations, hfunctions]

/-- The names of the variables do not repeat, nor do those of the functions. -/
structure Distinct (ds : List Declaration) : Prop where
  variableNames : ((variablesOf ds).map (·.name)).Nodup
  functionNames : ((functionsOf ds).map (·.name)).Nodup

instance (ds : List Declaration) : Decidable (Distinct ds) :=
  decidable_of_iff (((variablesOf ds).map (·.name)).Nodup ∧ ((functionsOf ds).map (·.name)).Nodup)
    ⟨fun h => ⟨h.1, h.2⟩, fun h => ⟨h.variableNames, h.functionNames⟩⟩

theorem Distinct.perm {ds ds' : List Declaration} (h : Distinct ds) (hperm : ds'.Perm ds) :
    Distinct ds' where
  variableNames := ((hperm.filterMap _).map _).nodup_iff.mpr h.variableNames
  functionNames := ((hperm.filterMap _).map _).nodup_iff.mpr h.functionNames

section Fresh

private theorem place_fresh {own other : List Variable} {v : Variable}
    (h : v.name ∉ (own ++ other).map (·.name)) : place own other v = ⟨own ++ [v], other, []⟩ := by
  have absent {entries : List Variable} (hentries : entries ⊆ own ++ other) :
      ¬ entries.any (·.name = v.name) = true := by
    intro hany
    obtain ⟨u, hu, hname⟩ := List.any_eq_true.mp hany
    apply h
    rw [← of_decide_eq_true hname]
    exact List.mem_map_of_mem (hentries hu)
  rw [place, if_neg (absent (List.subset_append_right own other)),
    if_neg (absent (List.subset_append_left own other))]

private theorem addVariable_fresh {p : Partition} {v : Variable}
    (h : v.name ∉ (p.inputs ++ p.globals).map (·.name)) :
    (p.addVariable v).inputs = p.inputs ++ [v].filter (·.isInput) ∧
      (p.addVariable v).globals = p.globals ++ [v].filter (!·.isInput) := by
  rw [addVariable]
  split
  · next hflag =>
    rw [place_fresh h]
    simp [hflag]
  · next hflag =>
    have hswap : v.name ∉ (p.globals ++ p.inputs).map (·.name) := by
      intro hmem
      exact h ((List.perm_append_comm.map _).mem_iff.mp hmem)
    rw [place_fresh hswap]
    simp [hflag]

theorem foldl_addVariable_fresh {p : Partition} (vs : List Variable)
    (distinct : ((p.inputs ++ p.globals ++ vs).map (·.name)).Nodup) :
    (vs.foldl addVariable p).inputs = p.inputs ++ vs.filter (·.isInput) ∧
      (vs.foldl addVariable p).globals = p.globals ++ vs.filter (!·.isInput) := by
  induction vs generalizing p with
  | nil => simp
  | cons v rest ih =>
    have hfresh : v.name ∉ (p.inputs ++ p.globals).map (·.name) := by
      intro hmem
      rw [List.map_append, List.nodup_append] at distinct
      exact distinct.2.2 _ hmem _ List.mem_cons_self rfl
    obtain ⟨hinputs, hglobals⟩ := addVariable_fresh hfresh
    have hperm : ((p.addVariable v).inputs ++ (p.addVariable v).globals ++ rest).Perm
        (p.inputs ++ p.globals ++ v :: rest) := by
      rw [hinputs, hglobals]
      cases hflag : v.isInput with
      | true => simpa [hflag] using List.perm_middle.symm.append_left p.inputs
      | false => simp [hflag]
    have hrest := ih ((hperm.map _).nodup_iff.mpr distinct)
    rw [List.foldl_cons, hrest.1, hrest.2, hinputs, hglobals]
    constructor
    · rw [List.append_assoc, ← List.filter_append, List.singleton_append]
    · rw [List.append_assoc, ← List.filter_append, List.singleton_append]

private theorem foldl_addFunction_fresh {p : Partition} (fs : List Function)
    (distinct : ((p.functions ++ fs).map (·.name)).Nodup) :
    (fs.foldl addFunction p).functions = p.functions ++ fs := by
  induction fs generalizing p with
  | nil => simp
  | cons f rest ih =>
    have hfresh : ¬ p.functions.any (·.name = f.name) = true := by
      intro hany
      obtain ⟨g, hg, hname⟩ := List.any_eq_true.mp hany
      rw [List.map_append, List.nodup_append] at distinct
      exact distinct.2.2 _ (List.mem_map_of_mem hg) _ List.mem_cons_self (of_decide_eq_true hname)
    have hadd : (p.addFunction f).functions = p.functions ++ [f] := by
      rw [addFunction, if_neg hfresh]
    rw [List.foldl_cons, ih, hadd, List.append_assoc, List.singleton_append]
    rwa [hadd, List.append_assoc, List.singleton_append]

end Fresh

theorem Distinct.ofDeclarations_eq {ds : List Declaration} (h : Distinct ds) :
    (ofDeclarations ds).inputs = inputsOf ds ∧ (ofDeclarations ds).globals = globalsOf ds ∧
      (ofDeclarations ds).functions = functionsOf ds := by
  obtain ⟨hinputs, hglobals⟩ := foldl_add_sameVariables (p := empty) (q := empty) ⟨rfl, rfl⟩ ds
  obtain ⟨hinputs', hglobals'⟩ := foldl_addVariable_fresh (p := empty) (variablesOf ds) h.variableNames
  refine ⟨hinputs.trans hinputs', hglobals.trans hglobals', ?_⟩
  exact (foldl_add_functions rfl ds).trans (foldl_addFunction_fresh (p := empty) _ h.functionNames)

end Partition

end Advisor
