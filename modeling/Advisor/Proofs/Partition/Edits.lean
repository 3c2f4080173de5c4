import Advisor.Proofs.Partition.Warnings
import Mathlib.Logic.Relation

/-!
# Edits of the declarations

What the names of a script are is told by the latest declaration of each name. So nothing that is done
to other declarations matters to a name: they may come, go, move or be replaced.
-/

namespace Advisor

/-- The name that is declared. A node that is not supported declares none. -/
def Declaration.name? : Declaration → Option String
  | .variable declared => some declared.name
  | .function declared => some declared.name
  | .unsupported _ => none

namespace Partition

theorem variableNamed_eq_none {d : Declaration} {n : String} (h : d.name? ≠ some n) :
    variableNamed n d = none := by
  rcases d with v | f | kind
  · exact if_neg fun hname => h (congrArg some hname)
  · rfl
  · rfl

theorem functionNamed_eq_none {d : Declaration} {n : String} (h : d.name? ≠ some n) :
    functionNamed n d = none := by
  rcases d with v | f | kind
  · rfl
  · exact if_neg fun hname => h (congrArg some hname)
  · rfl

section Names

variable (ds : List Declaration) (n : String)

private theorem last_occurrences {α : Type} (pick : Declaration → Option α) :
    last (occurrences pick ds) = (ds.filterMap pick).getLast? := by
  have hpick (e : Declaration × Nat) : ((pick e.1).map fun a => (e.2, a)).map (·.2) = pick e.1 := by
    cases pick e.1 <;> rfl
  have hmap : (occurrences pick ds).map (·.2) = ds.filterMap pick := by
    rw [occurrences, List.map_filterMap]
    simp only [hpick]
    rw [← Function.comp_def pick Prod.fst, ← List.filterMap_map, List.zipIdx_map_fst]
  rw [last, ← List.getLast?_map, hmap]

private theorem contains_map_name {α : Type} (name : α → String) (entries : List α) :
    (entries.map name).contains n = entries.any (name · = n) := by
  rw [Bool.eq_iff_iff, List.contains_iff_mem, List.mem_map, List.any_eq_true]
  simp only [decide_eq_true_eq]

theorem isInput_names :
    (ofDeclarations ds).names.isInput n = (last (variablesNamed ds n)).any (·.isInput) := by
  rw [Names.isInput, names, contains_map_name, Bool.eq_iff_iff,
    (ofDeclarations_settled ds).inputs.any_iff, Option.any_eq_true]

theorem isGlobal_names :
    (ofDeclarations ds).names.isGlobal n = (last (variablesNamed ds n)).any (!·.isInput) := by
  rw [Names.isGlobal, names, contains_map_name, Bool.eq_iff_iff,
    (ofDeclarations_settled ds).globals.any_iff, Option.any_eq_true]
  simp only [Bool.not_eq_true']

theorem isFunction_names :
    (ofDeclarations ds).names.isFunction n = (last (functionsNamed ds n)).isSome := by
  rw [Names.isFunction, names, contains_map_name, Bool.eq_iff_iff,
    (ofDeclarations_settled ds).functions.any_iff, Option.isSome_iff_exists]

end Names

/-- One edit of a sequence of declarations, by which only free ones come, go, move or change. -/
inductive Edit (free : Declaration → Prop) : List Declaration → List Declaration → Prop where
  | insert (before after : List Declaration) {d : Declaration} (hd : free d) :
    Edit free (before ++ after) (before ++ d :: after)
  | delete (before after : List Declaration) {d : Declaration} (hd : free d) :
    Edit free (before ++ d :: after) (before ++ after)
  | forward (before between after : List Declaration) {d : Declaration} (hd : free d) :
    Edit free (before ++ d :: between ++ after) (before ++ between ++ d :: after)
  | backward (before between after : List Declaration) {d : Declaration} (hd : free d) :
    Edit free (before ++ between ++ d :: after) (before ++ d :: between ++ after)
  | replace (before after : List Declaration) {d d' : Declaration} (hd : free d) (hd' : free d') :
    Edit free (before ++ d :: after) (before ++ d' :: after)

section Edits

variable {α : Type} {free : Declaration → Prop} {pick : Declaration → Option α}
  {ds ds' : List Declaration}

/-- An edit does not touch what is picked from declarations that are not free. -/
theorem Edit.filterMap_eq (h : Edit free ds ds') (hfree : ∀ d, free d → pick d = none) :
    ds'.filterMap pick = ds.filterMap pick := by
  cases h with
  | insert before after hd => simp [hfree _ hd]
  | delete before after hd => simp [hfree _ hd]
  | forward before between after hd => simp [hfree _ hd]
  | backward before between after hd => simp [hfree _ hd]
  | replace before after hd hd' => simp [hfree _ hd, hfree _ hd']

theorem last_of_edits (h : Relation.ReflTransGen (Edit free) ds ds')
    (hfree : ∀ d, free d → pick d = none) :
    last (occurrences pick ds') = last (occurrences pick ds) := by
  rw [last_occurrences, last_occurrences]
  induction h with
  | refl => rfl
  | tail _ hedit ih => rw [hedit.filterMap_eq hfree, ih]

end Edits

end Partition

end Advisor
