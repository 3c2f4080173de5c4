import Advisor.Proofs.Partition.LastWins
import Advisor.Proofs.Partition.Order
import Advisor.Proofs.Script.Flags

/-!
# Partitions of fewer variables and of unflagged ones

Without the variables of some names the lists of a partition lose these names and are otherwise what
they were. If no variable is declared as an input, the globals are all variables, each as it was
declared last; the functions are the same.
-/

namespace Advisor

namespace Partition

section Keep

/-- The variables with a name that is kept. -/
def kept (keep : String → Bool) (vs : List Variable) : List Variable :=
  vs.filter fun v => keep v.name

/-- Whether the declaration is no variable or one with a name that is kept. -/
def keeps (keep : String → Bool) : Declaration → Bool
  | .variable declared => keep declared.name
  | _ => true

variable {keep : String → Bool} {v : Variable} {vs : List Variable}

private theorem kept_cons_of_keep (hv : keep v.name = true) :
    kept keep (v :: vs) = v :: kept keep vs :=
  List.filter_cons_of_pos (p := fun u : Variable => keep u.name) hv

private theorem kept_cons_of_not (hv : keep v.name = false) : kept keep (v :: vs) = kept keep vs :=
  List.filter_cons_of_neg (p := fun u : Variable => keep u.name) (by simp [hv])

private theorem kept_append (us : List Variable) :
    kept keep (us ++ vs) = kept keep us ++ kept keep vs :=
  List.filter_append us vs

private theorem any_kept {n : String} (hn : keep n = true) :
    (kept keep vs).any (·.name = n) = vs.any (·.name = n) := by
  rw [kept, List.any_filter]
  congr 1
  funext u
  by_cases h : u.name = n
  · simp [h, hn]
  · simp [h]

/-- A name that is kept keeps its place among those that are kept. -/
theorem kept_overwrite (hv : keep v.name = true) :
    kept keep (overwrite (·.name) v vs) = overwrite (·.name) v (kept keep vs) := by
  induction vs with
  | nil => rfl
  | cons old rest ih =>
    by_cases hold : old.name = v.name
    · rw [overwrite, if_pos hold, kept_cons_of_keep hv, kept_cons_of_keep (hold ▸ hv), overwrite,
        if_pos hold]
    · rw [overwrite, if_neg hold]
      cases hkeep : keep old.name with
      | true => rw [kept_cons_of_keep hkeep, kept_cons_of_keep hkeep, overwrite, if_neg hold, ih]
      | false => rw [kept_cons_of_not hkeep, kept_cons_of_not hkeep, ih]

private theorem kept_overwrite_of_not (hv : keep v.name = false) :
    kept keep (overwrite (·.name) v vs) = kept keep vs := by
  induction vs with
  | nil => rfl
  | cons old rest ih =>
    by_cases hold : old.name = v.name
    · rw [overwrite, if_pos hold, kept_cons_of_not hv, kept_cons_of_not (hold ▸ hv)]
    · rw [overwrite, if_neg hold]
      cases hkeep : keep old.name with
      | true => rw [kept_cons_of_keep hkeep, kept_cons_of_keep hkeep, ih]
      | false => rw [kept_cons_of_not hkeep, kept_cons_of_not hkeep, ih]

private theorem kept_eraseP {n : String} (hn : keep n = true) :
    kept keep (vs.eraseP (·.name = n)) = (kept keep vs).eraseP (·.name = n) := by
  induction vs with
  | nil => rfl
  | cons old rest ih =>
    by_cases hold : old.name = n
    · rw [List.eraseP_cons_of_pos (by simpa using hold), kept_cons_of_keep (hold ▸ hn),
        List.eraseP_cons_of_pos (by simpa using hold)]
    · rw [List.eraseP_cons_of_neg (by simpa using hold)]
      cases hkeep : keep old.name with
      | true =>
        rw [kept_cons_of_keep hkeep, kept_cons_of_keep hkeep,
          List.eraseP_cons_of_neg (by simpa using hold), ih]
      | false => rw [kept_cons_of_not hkeep, kept_cons_of_not hkeep, ih]

private theorem kept_eraseP_of_not {n : String} (hn : keep n = false) :
    kept keep (vs.eraseP (·.name = n)) = kept keep vs := by
  induction vs with
  | nil => rfl
  | cons old rest ih =>
    by_cases hold : old.name = n
    · rw [List.eraseP_cons_of_pos (by simpa using hold), kept_cons_of_not (hold ▸ hn)]
    · rw [List.eraseP_cons_of_neg (by simpa using hold)]
      cases hkeep : keep old.name with
      | true => rw [kept_cons_of_keep hkeep, kept_cons_of_keep hkeep, ih]
      | false => rw [kept_cons_of_not hkeep, kept_cons_of_not hkeep, ih]

/-- The second partition holds, of the variables of the first, those with a name that is kept. -/
def KeptVariables (keep : String → Bool) (p q : Partition) : Prop :=
  q.inputs = kept keep p.inputs ∧ q.globals = kept keep p.globals

variable {p q : Partition} {own other : List Variable}

private theorem place_kept (hv : keep v.name = true) :
    (place (kept keep own) (kept keep other) v).own = kept keep (place own other v).own ∧
      (place (kept keep own) (kept keep other) v).other = kept keep (place own other v).other := by
  have hlast : kept keep own ++ [v] = kept keep (own ++ [v]) := by
    rw [kept_append, kept_cons_of_keep hv]
    rfl
  rw [place, place, any_kept hv, any_kept hv]
  split
  · exact ⟨hlast, (kept_eraseP hv).symm⟩
  · split
    · exact ⟨(kept_overwrite hv).symm, rfl⟩
    · exact ⟨hlast, rfl⟩

private theorem kept_place (own other : List Variable) (hv : keep v.name = false) :
    kept keep (place own other v).own = kept keep own ∧
      kept keep (place own other v).other = kept keep other := by
  have hlast : kept keep (own ++ [v]) = kept keep own := by
    rw [kept_append, kept_cons_of_not hv]
    exact List.append_nil _
  rw [place]
  split
  · exact ⟨hlast, kept_eraseP_of_not hv⟩
  · split
    · exact ⟨kept_overwrite_of_not hv, rfl⟩
    · exact ⟨hlast, rfl⟩

theorem KeptVariables.addVariable (h : KeptVariables keep p q) (hv : keep v.name = true) :
    KeptVariables keep (p.addVariable v) (q.addVariable v) := by
  obtain ⟨hinputs, hglobals⟩ := h
  rw [Partition.addVariable, Partition.addVariable, hinputs, hglobals]
  split
  · exact place_kept hv
  · exact (place_kept hv).symm

private theorem KeptVariables.addVariable_left (h : KeptVariables keep p q)
    (hv : keep v.name = false) : KeptVariables keep (p.addVariable v) q := by
  obtain ⟨hinputs, hglobals⟩ := h
  rw [Partition.addVariable]
  split
  · obtain ⟨hown, hother⟩ := kept_place p.inputs p.globals hv
    exact ⟨hinputs.trans hown.symm, hglobals.trans hother.symm⟩
  · obtain ⟨hown, hother⟩ := kept_place p.globals p.inputs hv
    exact ⟨hinputs.trans hother.symm, hglobals.trans hown.symm⟩

private theorem foldl_addVariable_kept (h : KeptVariables keep p q) (vs : List Variable) :
    KeptVariables keep (vs.foldl Partition.addVariable p)
      ((kept keep vs).foldl Partition.addVariable q) := by
  induction vs generalizing p q with
  | nil => exact h
  | cons v rest ih =>
    cases hv : keep v.name with
    | true =>
      rw [kept_cons_of_keep hv]
      exact ih (h.addVariable hv)
    | false =>
      rw [kept_cons_of_not hv]
      exact ih (h.addVariable_left hv)

private theorem variablesOf_filter_keeps (ds : List Declaration) :
    variablesOf (ds.filter (keeps keep)) = kept keep (variablesOf ds) := by
  rw [variablesOf, List.filterMap_filter, kept, variablesOf, List.filter_filterMap]
  apply List.filterMap_congr
  intro d _
  rcases d with v | f | kind
  · rfl
  · rfl
  · rfl

private theorem functionsOf_filter_keeps (ds : List Declaration) :
    functionsOf (ds.filter (keeps keep)) = functionsOf ds := by
  rw [functionsOf, List.filterMap_filter, functionsOf]
  apply List.filterMap_congr
  intro d _
  rcases d with v | f | kind
  · simp [Declaration.toFunction?]
  · rfl
  · rfl

/-- Names that are left out leave the lists, and nothing else changes. -/
theorem ofDeclarations_filter_keeps (keep : String → Bool) (ds : List Declaration) :
    (ofDeclarations (ds.filter (keeps keep))).inputs = kept keep (ofDeclarations ds).inputs ∧
      (ofDeclarations (ds.filter (keeps keep))).globals = kept keep (ofDeclarations ds).globals ∧
      (ofDeclarations (ds.filter (keeps keep))).functions = (ofDeclarations ds).functions := by
  have hkept : KeptVariables keep ((variablesOf ds).foldl addVariable empty)
      ((kept keep (variablesOf ds)).foldl addVariable empty) :=
    foldl_addVariable_kept ⟨rfl, rfl⟩ (variablesOf ds)
  rw [← variablesOf_filter_keeps] at hkept
  refine ⟨?_, ?_, ?_⟩
  · rw [(ofDeclarations_sameVariables _).1, hkept.1, ← (ofDeclarations_sameVariables ds).1]
  · rw [(ofDeclarations_sameVariables _).2, hkept.2, ← (ofDeclarations_sameVariables ds).2]
  · rw [functions_ofDeclarations, functionsOf_filter_keeps, ← functions_ofDeclarations]

end Keep

section Unflagged

private theorem overwrite_map {α : Type} {name : α → String} (f : α → α)
    (hname : ∀ a, name (f a) = name a)
    {new : α} {entries : List α} :
    overwrite name (f new) (entries.map f) = (overwrite name new entries).map f := by
  induction entries with
  | nil => rfl
  | cons old rest ih =>
    rw [List.map_cons, overwrite, overwrite, hname, hname, ih]
    split
    · rfl
    · rfl

private theorem functionsOf_map_unflagged (ds : List Declaration) :
    functionsOf (ds.map Declaration.unflagged) = (functionsOf ds).map Function.unflagged := by
  rw [functionsOf, List.filterMap_map, functionsOf, List.map_filterMap]
  apply List.filterMap_congr
  intro d _
  rcases d with v | f | kind
  · rfl
  · rfl
  · rfl

private theorem foldl_addFunction_unflagged {p q : Partition}
    (h : q.functions = p.functions.map Function.unflagged) (fs : List Function) :
    ((fs.map Function.unflagged).foldl addFunction q).functions
      = (fs.foldl addFunction p).functions.map Function.unflagged := by
  induction fs generalizing p q with
  | nil => exact h
  | cons f rest ih =>
    apply ih
    have hany : q.functions.any (·.name = f.unflagged.name)
        = p.functions.any (·.name = f.name) := by
      rw [h, List.any_map]
      rfl
    rw [addFunction, addFunction, hany]
    split
    · rw [h]
      exact overwrite_map Function.unflagged (fun _ => rfl)
    · rw [h, List.map_append]
      rfl

private theorem variablesNamed_map_unflagged (ds : List Declaration) (n : String) :
    variablesNamed (ds.map Declaration.unflagged) n
      = (variablesNamed ds n).map fun e => (e.1, e.2.unflagged) := by
  rw [variablesNamed, occurrences, variablesNamed, occurrences, List.zipIdx_map,
    List.filterMap_map, List.map_filterMap]
  apply List.filterMap_congr
  rintro ⟨d, i⟩ -
  rcases d with v | f | kind
  · by_cases hname : v.name = n
    · simp [Declaration.unflagged, variableNamed, Variable.unflagged, hname]
    · simp [Declaration.unflagged, variableNamed, Variable.unflagged, hname]
  · rfl
  · rfl

private theorem last_map_unflagged (ds : List Declaration) (n : String) :
    last (variablesNamed (ds.map Declaration.unflagged) n)
      = (last (variablesNamed ds n)).map Variable.unflagged := by
  rw [variablesNamed_map_unflagged, last, last, List.getLast?_map, Option.map_map, Option.map_map]
  rfl

/-- Without flags all variables are globals, as they were declared last. -/
theorem ofDeclarations_map_unflagged (ds : List Declaration) :
    (ofDeclarations (ds.map Declaration.unflagged)).inputs = [] ∧
      (ofDeclarations (ds.map Declaration.unflagged)).globals.Perm
        (((ofDeclarations ds).inputs ++ (ofDeclarations ds).globals).map Variable.unflagged) ∧
      (ofDeclarations (ds.map Declaration.unflagged)).functions
        = (ofDeclarations ds).functions.map Function.unflagged := by
  have settled := ofDeclarations_settled ds
  have settled' := ofDeclarations_settled (ds.map Declaration.unflagged)
  have hnames : (((ofDeclarations ds).inputs ++ (ofDeclarations ds).globals).map
      Variable.unflagged).map (·.name)
        = ((ofDeclarations ds).inputs ++ (ofDeclarations ds).globals).map (·.name) := by
    rw [List.map_map]
    rfl
  refine ⟨?_, ?_, ?_⟩
  · rw [List.eq_nil_iff_forall_not_mem]
    intro v hv
    obtain ⟨hlast, hflag⟩ := (settled'.inputs.mem_iff v).mp hv
    rw [last_map_unflagged] at hlast
    obtain ⟨u, -, rfl⟩ := Option.map_eq_some_iff.mp hlast
    exact absurd hflag (by simp [Variable.unflagged])
  · rw [List.perm_ext_iff_of_nodup settled'.globals.nodup_names.of_map
      (List.Nodup.of_map (·.name) (hnames ▸ settled.variable_nodup))]
    intro v
    rw [settled'.globals.mem_iff, last_map_unflagged, List.mem_map]
    constructor
    · rintro ⟨hlast, -⟩
      obtain ⟨u, hu, rfl⟩ := Option.map_eq_some_iff.mp hlast
      have hmem := settled.mem_of_last_variable hu
      refine ⟨u, List.mem_append.mpr ?_, rfl⟩
      split at hmem
      · exact Or.inl hmem
      · exact Or.inr hmem
    · rintro ⟨u, hu, rfl⟩
      have hlast : last (variablesNamed ds u.name) = some u := by
        rcases List.mem_append.mp hu with hu | hu
        · exact ((settled.inputs.mem_iff u).mp hu).1
        · exact ((settled.globals.mem_iff u).mp hu).1
      exact ⟨by rw [Variable.unflagged, hlast]; rfl, rfl⟩
  · rw [functions_ofDeclarations, functionsOf_map_unflagged, functions_ofDeclarations ds]
    exact foldl_addFunction_unflagged (p := empty) (q := empty) rfl (functionsOf ds)

end Unflagged

end Partition

end Advisor
