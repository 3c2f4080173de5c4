import Advisor.Proofs.Partition.History
import Advisor.Proofs.Partition.Lists
import Advisor.Scope

/-!
# The last declaration wins

A partition is built by one pass over the declarations. After each of them its lists hold exactly
the latest declaration of every name met so far, variables in the order of their seats and functions
in the order of their first declarations. No name is in both lists of variables.
-/

namespace Advisor.Partition

/-- The list holds the latest variables of the kind, in the order of their seats. -/
abbrev Holds (ds : List Declaration) (isInput : Bool) (entries : List Variable) : Prop :=
  Lists (·.name) (fun n => last (variablesNamed ds n)) (seat ds) (·.isInput = isInput) entries

/-- The list holds the latest functions in the order of their first declarations. -/
abbrev HoldsFunctions (ds : List Declaration) (entries : List Function) : Prop :=
  Lists (·.name) (fun n => last (functionsNamed ds n)) (firstSeat ds) (fun _ => True) entries

/-- The partition is that of the declarations. -/
structure Settled (ds : List Declaration) (p : Partition) : Prop where
  inputs : Holds ds true p.inputs
  globals : Holds ds false p.globals
  functions : HoldsFunctions ds p.functions

section Step

variable {ds : List Declaration} {v : Variable} {own other : List Variable}

private theorem last_variablesNamed_concat (ds : List Declaration) (v : Variable) (n : String) :
    last (variablesNamed (ds ++ [.variable v]) n)
      = if n = v.name then some v else last (variablesNamed ds n) := by
  rw [variablesNamed_concat]
  split <;> simp

private theorem seat_concat_of_ne (ds : List Declaration) (v : Variable) (n : String)
    (h : n ≠ v.name) : seat (ds ++ [.variable v]) n = seat ds n := by
  simp [seat_concat, h]

private theorem holds_concat (hown : Holds ds v.isInput own)
    (fresh : ∀ a ∈ own, a.name ≠ v.name) :
    Holds (ds ++ [.variable v]) v.isInput (own ++ [v]) := by
  have hseat : seat (ds ++ [.variable v]) v.name = ds.length := by
    rw [seat_concat, if_pos rfl, if_neg]
    intro joins
    obtain ⟨u, hu, hflag⟩ := Option.map_eq_some_iff.mp joins
    have hname := name_of_last_variable hu
    exact fresh u ((hown.mem_iff u).mpr ⟨by rw [hname, hu], hflag⟩) hname
  apply hown.concat rfl fresh (last_variablesNamed_concat ds v) (seat_concat_of_ne ds v)
  intro a ha
  rw [hseat]
  exact seat_lt_length ((hown.mem_iff a).mp ha).1

private theorem holds_overwrite (hown : Holds ds v.isInput own)
    (found : ∃ old ∈ own, old.name = v.name) :
    Holds (ds ++ [.variable v]) v.isInput (overwrite (·.name) v own) := by
  apply hown.overwrite rfl found (last_variablesNamed_concat ds v)
  intro n
  obtain ⟨old, hold, hname⟩ := found
  obtain ⟨hlast, hflag⟩ := (hown.mem_iff old).mp hold
  rw [seat_concat]
  by_cases hn : n = v.name
  · rw [if_pos hn, if_pos]
    rw [hn, ← hname, hlast, Option.map_some, hflag]
  · rw [if_neg hn]

private theorem holds_other (hother : Holds ds (!v.isInput) other)
    (absent : ∀ a ∈ other, a.name ≠ v.name) :
    Holds (ds ++ [.variable v]) (!v.isInput) other := by
  apply hother.congr
  · intro a
    rw [last_variablesNamed_concat]
    split
    · next hname =>
      constructor
      · rintro ⟨ha, hflag⟩
        rw [← Option.some.inj ha] at hflag
        simp at hflag
      · intro ha
        exact absurd hname (absent a ((hother.mem_iff a).mpr ha))
    · rfl
  · intro a ha
    exact seat_concat_of_ne ds v a.name (absent a ha)

private theorem place_holds (hown : Holds ds v.isInput own) (hother : Holds ds (!v.isInput) other) :
    Holds (ds ++ [.variable v]) v.isInput (place own other v).own ∧
      Holds (ds ++ [.variable v]) (!v.isInput) (place own other v).other := by
  rw [place]
  split
  · next moves =>
    obtain ⟨u, hu, hname⟩ : ∃ u ∈ other, u.name = v.name := by simpa using moves
    obtain ⟨hlast, hflag⟩ := (hother.mem_iff u).mp hu
    have fresh : ∀ a ∈ own, a.name ≠ v.name := by
      intro a ha heq
      obtain ⟨hlast', hflag'⟩ := (hown.mem_iff a).mp ha
      rw [heq, ← hname, hlast] at hlast'
      rw [Option.some.inj hlast', hflag'] at hflag
      simp at hflag
    exact ⟨holds_concat hown fresh,
      hother.eraseP (by simp) (last_variablesNamed_concat ds v) (seat_concat_of_ne ds v)⟩
  · next stays =>
    have absent : ∀ a ∈ other, a.name ≠ v.name := by simpa using stays
    split
    · next found => exact ⟨holds_overwrite hown (by simpa using found), holds_other hother absent⟩
    · next fresh => exact ⟨holds_concat hown (by simpa using fresh), holds_other hother absent⟩

private theorem addFunction_holds {p : Partition} (f : Function)
    (h : HoldsFunctions ds p.functions) :
    HoldsFunctions (ds ++ [.function f]) (p.addFunction f).functions := by
  have hlast (n : String) : last (functionsNamed (ds ++ [.function f]) n)
      = if n = f.name then some f else last (functionsNamed ds n) := by
    rw [functionsNamed_concat]
    split <;> simp
  rw [addFunction]
  split
  · next found =>
    have found' : ∃ old ∈ p.functions, old.name = f.name := by simpa using found
    apply h.overwrite trivial found' hlast
    intro n
    rw [firstSeat_concat, if_neg]
    rintro ⟨rfl, hnone⟩
    obtain ⟨old, hold, hname⟩ := found'
    rw [← hname, ((h.mem_iff old).mp hold).1] at hnone
    simp at hnone
  · next missing =>
    have fresh : ∀ a ∈ p.functions, a.name ≠ f.name := by simpa using missing
    apply h.concat trivial fresh hlast
    · intro n hn
      simp [firstSeat_concat, hn]
    · intro a ha
      rw [firstSeat_concat, if_pos]
      · exact firstSeat_lt_length ((h.mem_iff a).mp ha).1
      · refine ⟨rfl, ?_⟩
        by_contra hsome
        obtain ⟨g, hg⟩ := Option.ne_none_iff_exists'.mp hsome
        have hname := name_of_last_function hg
        exact fresh g ((h.mem_iff g).mpr ⟨by rw [hname, hg], trivial⟩) hname

private theorem holds_concat_other {isInput : Bool} {d : Declaration}
    (h : Holds ds isInput own) (hd : ∀ v, d ≠ .variable v) : Holds (ds ++ [d]) isInput own := by
  rw [Holds, variablesNamed_concat_other ds hd, seat_concat_other ds hd]
  exact h

private theorem holdsFunctions_concat_other {entries : List Function} {d : Declaration}
    (h : HoldsFunctions ds entries) (hd : ∀ f, d ≠ .function f) :
    HoldsFunctions (ds ++ [d]) entries := by
  rw [HoldsFunctions, functionsNamed_concat_other ds hd, firstSeat_concat_other ds hd]
  exact h

theorem add_settled {p : Partition} (d : Declaration) (h : Settled ds p) :
    Settled (ds ++ [d]) (p.add d) := by
  rcases d with v | f | kind
  · have functions := holdsFunctions_concat_other h.functions (d := .variable v) (by simp)
    rw [add, addVariable]
    split
    · next hflag =>
      have placed := place_holds (v := v) (by simpa [hflag] using h.inputs)
        (by simpa [hflag] using h.globals)
      rw [hflag] at placed
      exact ⟨placed.1, placed.2, functions⟩
    · next hflag =>
      rw [Bool.not_eq_true] at hflag
      have placed := place_holds (v := v) (by simpa [hflag] using h.globals)
        (by simpa [hflag] using h.inputs)
      rw [hflag] at placed
      exact ⟨placed.2, placed.1, functions⟩
  · have inputs := holds_concat_other h.inputs (d := .function f) (by simp)
    have globals := holds_concat_other h.globals (d := .function f) (by simp)
    have kept : (p.addFunction f).inputs = p.inputs ∧ (p.addFunction f).globals = p.globals := by
      rw [addFunction]
      split <;> exact ⟨rfl, rfl⟩
    exact ⟨by rwa [add, kept.1], by rwa [add, kept.2], addFunction_holds f h.functions⟩
  · exact ⟨holds_concat_other h.inputs (by simp), holds_concat_other h.globals (by simp),
      holdsFunctions_concat_other h.functions (by simp)⟩

end Step

theorem ofDeclarations_settled (ds : List Declaration) : Settled ds (ofDeclarations ds) := by
  induction ds using List.reverseRecOn with
  | nil => constructor <;> constructor <;> simp [ofDeclarations, empty, variablesNamed,
      functionsNamed, occurrences]
  | append_singleton ds d ih =>
    rw [ofDeclarations, List.foldl_append]
    exact add_settled d ih

namespace Settled

variable {ds : List Declaration} {p : Partition}

private theorem variable_count (h : Settled ds p) (n : String) :
    ((p.inputs ++ p.globals).map (·.name)).count n
      = if variablesNamed ds n = [] then 0 else 1 := by
  rw [List.map_append, List.count_append]
  split
  · next hnil =>
    have none_left (v : Variable) : last (variablesNamed ds n) ≠ some v := by simp [hnil]
    rw [h.inputs.count_eq_zero fun v hv => absurd hv (none_left v),
      h.globals.count_eq_zero fun v hv => absurd hv (none_left v)]
  · next hsome =>
    obtain ⟨v, hv⟩ := Option.ne_none_iff_exists'.mp (mt last_eq_none_iff.mp hsome)
    obtain rfl := name_of_last_variable hv
    have other {isInput : Bool} (hne : v.isInput ≠ isInput) (u : Variable)
        (hu : last (variablesNamed ds v.name) = some u) : ¬ u.isInput = isInput := by
      rw [hv] at hu
      rwa [← Option.some.inj hu]
    cases hflag : v.isInput with
    | true =>
      rw [h.inputs.count_eq_one hv hflag, h.globals.count_eq_zero (other (by simp [hflag]))]
    | false =>
      rw [h.inputs.count_eq_zero (other (by simp [hflag])), h.globals.count_eq_one hv hflag]

private theorem function_count (h : Settled ds p) (n : String) :
    (p.functions.map (·.name)).count n = if functionsNamed ds n = [] then 0 else 1 := by
  split
  · next hnil => exact h.functions.count_eq_zero fun f hf => by simp [hnil] at hf
  · next hsome =>
    obtain ⟨f, hf⟩ := Option.ne_none_iff_exists'.mp (mt last_eq_none_iff.mp hsome)
    obtain rfl := name_of_last_function hf
    exact h.functions.count_eq_one hf trivial

theorem variable_notMem_iff (h : Settled ds p) {n : String} :
    n ∉ (p.inputs ++ p.globals).map (·.name) ↔ ∀ v, .variable v ∈ ds → v.name ≠ n := by
  rw [← variablesNamed_eq_nil_iff, ← List.count_eq_zero, h.variable_count]
  simp

theorem function_notMem_iff (h : Settled ds p) {n : String} :
    n ∉ p.functions.map (·.name) ↔ ∀ f, .function f ∈ ds → f.name ≠ n := by
  rw [← functionsNamed_eq_nil_iff, ← List.count_eq_zero, h.function_count]
  simp

theorem variable_nodup (h : Settled ds p) : ((p.inputs ++ p.globals).map (·.name)).Nodup := by
  rw [List.nodup_iff_count_le_one]
  intro n
  rw [h.variable_count]
  split
  · exact Nat.zero_le 1
  · exact Nat.le_refl 1

theorem mem_of_last_variable (h : Settled ds p) {n : String} {v : Variable}
    (hv : last (variablesNamed ds n) = some v) :
    v ∈ if v.isInput then p.inputs else p.globals := by
  obtain rfl := name_of_last_variable hv
  split
  · next hflag => exact (h.inputs.mem_iff v).mpr ⟨hv, hflag⟩
  · next hflag => exact (h.globals.mem_iff v).mpr ⟨hv, by simpa using hflag⟩

theorem mem_of_last_function (h : Settled ds p) {n : String} {f : Function}
    (hf : last (functionsNamed ds n) = some f) : f ∈ p.functions := by
  obtain rfl := name_of_last_function hf
  exact (h.functions.mem_iff f).mpr ⟨hf, trivial⟩

theorem variable_declared (h : Settled ds p) {v : Variable} (hv : v ∈ p.inputs ++ p.globals) :
    .variable v ∈ ds := by
  rcases List.mem_append.mp hv with hv | hv
  · exact (declared_of_last_variable ((h.inputs.mem_iff v).mp hv).1).1
  · exact (declared_of_last_variable ((h.globals.mem_iff v).mp hv).1).1

theorem function_declared (h : Settled ds p) {f : Function} (hf : f ∈ p.functions) :
    .function f ∈ ds :=
  (declared_of_last_function ((h.functions.mem_iff f).mp hf).1).1

private theorem not_mem_both (h : Settled ds p) {n : String} (hinput : n ∈ p.inputs.map (·.name)) :
    n ∉ p.globals.map (·.name) := by
  intro hglobal
  obtain ⟨u, hu, rfl⟩ := List.mem_map.mp hinput
  obtain ⟨v, hv, hname⟩ := List.mem_map.mp hglobal
  obtain ⟨hlast, hflag⟩ := (h.inputs.mem_iff u).mp hu
  obtain ⟨hlast', hflag'⟩ := (h.globals.mem_iff v).mp hv
  rw [hname, hlast] at hlast'
  rw [Option.some.inj hlast', hflag'] at hflag
  exact Bool.false_ne_true hflag

end Settled

end Advisor.Partition

namespace Advisor.Scope

open Advisor.Partition

/-- What the lists of a scope hold, told by the history of each name alone. -/
structure Describes (scope : Scope) (ds : List Declaration) : Prop where
  variable_once : ∀ n, ((scope.inputs ++ scope.globals).map (·.name)).count n
    = if variablesNamed ds n = [] then 0 else 1
  latest_variable : ∀ n v, last (variablesNamed ds n) = some v →
    ⟨n, v.type, v.renderInitial scope.context⟩ ∈ if v.isInput then scope.inputs else scope.globals
  inputs_ordered : scope.inputs.Pairwise fun a b => seat ds a.name < seat ds b.name
  globals_ordered : scope.globals.Pairwise fun a b => seat ds a.name < seat ds b.name
  /-- A seat is where the longest end of the history without a change of kind begins. -/
  seat_first : ∀ n, variablesNamed ds n ≠ [] →
    ∃ before e after, variablesNamed ds n = before ++ e :: after ∧ seat ds n = e.1 ∧
      (∀ a ∈ after, a.2.isInput = e.2.isInput) ∧
      ∀ b, last before = some b → b.isInput ≠ e.2.isInput
  function_once : ∀ n, (scope.functions.map (·.name)).count n
    = if functionsNamed ds n = [] then 0 else 1
  latest_function : ∀ n f, last (functionsNamed ds n) = some f → f ∈ scope.functions
  functions_ordered : scope.functions.Pairwise fun a b => firstSeat ds a.name < firstSeat ds b.name
  isInput_iff : ∀ n, scope.context.names.isInput n = true ↔ n ∈ scope.inputs.map (·.name)
  isGlobal_iff : ∀ n, scope.context.names.isGlobal n = true ↔ n ∈ scope.globals.map (·.name)
  isFunction_iff : ∀ n, scope.context.names.isFunction n = true ↔ n ∈ scope.functions.map (·.name)
  not_both : ∀ n, ¬ (scope.context.names.isInput n = true ∧ scope.context.names.isGlobal n = true)

/-- The last declaration of a name wins, in the seat of its present kind. -/
theorem ofScript_describes (script : Script) (settings : Settings) :
    (ofScript script settings).Describes script.declarations := by
  have settled := ofDeclarations_settled script.declarations
  have slot_name (vs : List Variable) (c : Context) :
      (vs.map (Variable.slot c)).map (·.name) = vs.map (·.name) := by
    rw [List.map_map]
    rfl
  constructor
  case variable_once =>
    intro n
    rw [List.map_append, ofScript, slot_name, slot_name, ← List.map_append]
    exact settled.variable_count n
  case latest_variable =>
    intro n v hv
    have hmem := settled.mem_of_last_variable hv
    obtain rfl := name_of_last_variable hv
    rw [ofScript]
    split <;> rename_i hflag
    · rw [if_pos hflag] at hmem
      exact List.mem_map_of_mem hmem
    · rw [if_neg hflag] at hmem
      exact List.mem_map_of_mem hmem
  case inputs_ordered => exact List.pairwise_map.mpr settled.inputs.ordered
  case globals_ordered => exact List.pairwise_map.mpr settled.globals.ordered
  case seat_first =>
    intro n hn
    exact seat_spec hn
  case function_once => exact settled.function_count
  case latest_function =>
    intro n f hf
    exact settled.mem_of_last_function hf
  case functions_ordered => exact settled.functions.ordered
  case isInput_iff =>
    intro n
    rw [ofScript, slot_name, contextOf, Names.isInput, Partition.names, List.contains_iff_mem]
  case isGlobal_iff =>
    intro n
    rw [ofScript, slot_name, contextOf, Names.isGlobal, Partition.names, List.contains_iff_mem]
  case isFunction_iff =>
    intro n
    rw [ofScript, contextOf, Names.isFunction, Partition.names, List.contains_iff_mem]
  case not_both =>
    rintro n ⟨hinput, hglobal⟩
    rw [ofScript, contextOf, Names.isInput, Partition.names, List.contains_iff_mem] at hinput
    rw [ofScript, contextOf, Names.isGlobal, Partition.names, List.contains_iff_mem] at hglobal
    exact settled.not_mem_both hinput hglobal

end Advisor.Scope
