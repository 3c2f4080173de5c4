import Advisor.Proofs.Partition.LastWins
import Advisor.Translation

/-!
# Warnings

A declaration either takes a place of its own or leaves a warning. Which warning it leaves is told
by the declarations in front of it alone: by the latest of its name, and for a variable by whether
that was of the same kind.
-/

namespace Advisor.Partition

/-- The warning that a declaration leaves behind those in front of it, if it leaves one. -/
def notice (before : List Declaration) : Declaration → Option Warning
  | .variable v => (last (variablesNamed before v.name)).map fun earlier =>
    if earlier.isInput = v.isInput then .variableTwice v.name else .redeclared v.name v.isInput
  | .function f => (last (functionsNamed before f.name)).map fun _ => .functionTwice f.name
  | .unsupported kind => some (.skipped kind)

/-- The warnings of the declarations in order, behind those in front of them. -/
def noticesAfter (before : List Declaration) : List Declaration → List Warning
  | [] => []
  | d :: rest => (notice before d).toList ++ noticesAfter (before ++ [d]) rest

def notices (ds : List Declaration) : List Warning := noticesAfter [] ds

/-- The declarations that have left something behind: a place in a list or a warning. -/
def size (p : Partition) : Nat :=
  p.warnings.length + p.inputs.length + p.globals.length + p.functions.length

section Step

variable {ds : List Declaration} {p : Partition}

theorem Holds.any_iff {isInput : Bool} {entries : List Variable} (h : Holds ds isInput entries)
    (n : String) : entries.any (·.name = n) = true ↔
      ∃ v, last (variablesNamed ds n) = some v ∧ v.isInput = isInput := by
  rw [List.any_eq_true]
  constructor
  · rintro ⟨v, hv, hname⟩
    obtain ⟨hlast, hflag⟩ := (h.mem_iff v).mp hv
    obtain rfl : v.name = n := by simpa using hname
    exact ⟨v, hlast, hflag⟩
  · rintro ⟨v, hlast, hflag⟩
    obtain rfl := name_of_last_variable hlast
    exact ⟨v, (h.mem_iff v).mpr ⟨hlast, hflag⟩, by simp⟩

theorem HoldsFunctions.any_iff {entries : List Function} (h : HoldsFunctions ds entries)
    (n : String) :
    entries.any (·.name = n) = true ↔ ∃ f, last (functionsNamed ds n) = some f := by
  rw [List.any_eq_true]
  constructor
  · rintro ⟨f, hf, hname⟩
    obtain rfl : f.name = n := by simpa using hname
    exact ⟨f, ((h.mem_iff f).mp hf).1⟩
  · rintro ⟨f, hlast⟩
    obtain rfl := name_of_last_function hlast
    exact ⟨f, (h.mem_iff f).mpr ⟨hlast, trivial⟩, by simp⟩

private theorem place_warnings {v : Variable} {own other : List Variable}
    (hown : Holds ds v.isInput own) (hother : Holds ds (!v.isInput) other) :
    (place own other v).warnings = (notice ds (.variable v)).toList := by
  rw [notice, place]
  cases hlast : last (variablesNamed ds v.name) with
  | none =>
    have hnone (isInput : Bool) :
        ¬ ∃ u, last (variablesNamed ds v.name) = some u ∧ u.isInput = isInput := by
      simp [hlast]
    rw [if_neg (mt (hother.any_iff v.name).mp (hnone _)),
      if_neg (mt (hown.any_iff v.name).mp (hnone _))]
    rfl
  | some u =>
    by_cases hflag : u.isInput = v.isInput
    · have hstays : ¬ ∃ w, last (variablesNamed ds v.name) = some w ∧ w.isInput = !v.isInput := by
        simp [hlast, hflag]
      rw [if_neg (mt (hother.any_iff v.name).mp hstays),
        if_pos ((hown.any_iff v.name).mpr ⟨u, hlast, hflag⟩)]
      simp [hflag]
    · have hmoves : u.isInput = !v.isInput := Bool.eq_not.mpr hflag
      rw [if_pos ((hother.any_iff v.name).mpr ⟨u, hlast, hmoves⟩)]
      simp [hflag]

private theorem add_warnings (d : Declaration) (h : Settled ds p) :
    (p.add d).warnings = p.warnings ++ (notice ds d).toList := by
  rcases d with v | f | kind
  · rw [add, addVariable]
    split
    · next hflag =>
      have hplaced := place_warnings (v := v) (by simpa [hflag] using h.inputs)
        (by simpa [hflag] using h.globals)
      rw [← hplaced]
    · next hflag =>
      rw [Bool.not_eq_true] at hflag
      have hplaced := place_warnings (v := v) (by simpa [hflag] using h.globals)
        (by simpa [hflag] using h.inputs)
      rw [← hplaced]
  · rw [add, addFunction, notice]
    cases hlast : last (functionsNamed ds f.name) with
    | none =>
      rw [if_neg (mt (h.functions.any_iff f.name).mp (by simp [hlast]))]
      simp
    | some g =>
      rw [if_pos ((h.functions.any_iff f.name).mpr ⟨g, hlast⟩)]
      simp
  · rfl

private theorem length_overwrite {α : Type} (name : α → String) (new : α) (old : List α) :
    (overwrite name new old).length = old.length := by
  have hlength := congrArg List.length (map_overwrite name new old)
  rwa [List.length_map, List.length_map] at hlength

/-- A declared variable is one more entry, or there is one warning more. -/
theorem place_length (own other : List Variable) (v : Variable) :
    (place own other v).warnings.length + (place own other v).own.length
      + (place own other v).other.length = own.length + other.length + 1 := by
  rw [place]
  split
  · next moves =>
    obtain ⟨u, hu, hname⟩ := List.any_eq_true.mp moves
    have herase := List.length_eraseP_of_mem (p := (·.name = v.name)) hu hname
    have hpos := List.length_pos_of_mem hu
    simp only [List.length_append, List.length_singleton]
    omega
  · split
    · simp only [length_overwrite, List.length_singleton]
      omega
    · simp only [List.length_append, List.length_nil, List.length_singleton]
      omega

private theorem add_size (p : Partition) (d : Declaration) : (p.add d).size = p.size + 1 := by
  rcases d with v | f | kind
  · rw [add, addVariable]
    split
    · have hplaced := place_length p.inputs p.globals v
      simp only [size, List.length_append]
      omega
    · have hplaced := place_length p.globals p.inputs v
      simp only [size, List.length_append]
      omega
  · rw [add, addFunction]
    split
    · simp only [size, length_overwrite, List.length_append, List.length_singleton]
      omega
    · simp only [size, List.length_append, List.length_singleton]
      omega
  · simp only [add, size, List.length_append, List.length_singleton]
    omega

end Step

private theorem foldl_add_warnings {before : List Declaration} {p : Partition}
    (h : Settled before p)
    (ds : List Declaration) : (ds.foldl add p).warnings = p.warnings ++ noticesAfter before ds := by
  induction ds generalizing before p with
  | nil => rw [List.foldl_nil, noticesAfter, List.append_nil]
  | cons d rest ih =>
    rw [List.foldl_cons, ih (add_settled d h), add_warnings d h, noticesAfter, List.append_assoc]

theorem foldl_add_size (p : Partition) (ds : List Declaration) :
    (ds.foldl add p).size = p.size + ds.length := by
  induction ds generalizing p with
  | nil => rfl
  | cons d rest ih =>
    rw [List.foldl_cons, ih, add_size, List.length_cons]
    omega

end Advisor.Partition

namespace Advisor.Translation

open Advisor.Partition

/-- The warnings are those of the declarations one by one, and every declaration either has a place
in one of the lists or has left a warning. -/
theorem warnings_account (script : Script) (settings : Settings) (now : String) :
    let scope := Scope.ofScript script settings
    let warnings := (ofScript script settings now).warnings
    (warnings = (notices script.declarations).map fun
      | .skipped kind => "Skipped unsupported declaration '" ++ kind ++ "'"
      | .redeclared name isInput =>
        "Variable '" ++ name ++ "' redeclared as " ++ (if isInput then "input" else "global")
          ++ "; later declaration wins"
      | .variableTwice name => "Variable '" ++ name ++ "' declared twice; later declaration wins"
      | .functionTwice name => "Function '" ++ name ++ "' declared twice; later declaration wins") ∧
      warnings.length + scope.inputs.length + scope.globals.length + scope.functions.length
        = script.declarations.length := by
  have hwarnings : (ofDeclarations script.declarations).warnings = notices script.declarations :=
    foldl_add_warnings (ofDeclarations_settled []) script.declarations
  have hsize : (ofDeclarations script.declarations).size = 0 + script.declarations.length :=
    foldl_add_size empty script.declarations
  constructor
  · rw [← hwarnings]
    rfl
  · simp only [ofScript, Scope.ofScript, List.length_map]
    simp only [size] at hsize
    omega

/-- A variable that moves twice, one that stays, a function and what is no declaration. -/
def repeatedScript : Script :=
  ⟨none, [.variable ⟨"risk", "double", none, true⟩, .unsupported "EnumDeclaration",
    .variable ⟨"risk", "double", none, false⟩, .function ⟨"OnTick", [], .block [], some "void"⟩,
    .variable ⟨"lots", "double", none, true⟩, .variable ⟨"risk", "int", none, true⟩,
    .variable ⟨"lots", "double", none, true⟩, .function ⟨"OnTick", [], .block [], none⟩]⟩

theorem repeatedScript_warned :
    (ofScript repeatedScript Settings.standard "").warnings =
        ["Skipped unsupported declaration 'EnumDeclaration'",
          "Variable 'risk' redeclared as global; later declaration wins",
          "Variable 'risk' redeclared as input; later declaration wins",
          "Variable 'lots' declared twice; later declaration wins",
          "Function 'OnTick' declared twice; later declaration wins"] ∧
      5 + (Scope.ofScript repeatedScript Settings.standard).inputs.length
          + (Scope.ofScript repeatedScript Settings.standard).globals.length
          + (Scope.ofScript repeatedScript Settings.standard).functions.length = 8 := by
  obtain ⟨hwarnings, hlength⟩ := warnings_account repeatedScript Settings.standard ""
  have hnotices : (notices repeatedScript.declarations).length = 5 := by decide
  refine ⟨hwarnings.trans (by decide), ?_⟩
  rwa [hwarnings, List.length_map, hnotices] at hlength

end Advisor.Translation
