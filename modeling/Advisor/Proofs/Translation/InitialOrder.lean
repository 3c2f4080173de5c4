import Advisor.Proofs.Partition.Order
import Advisor.Proofs.Translation.Places

/-!
# The order of assignments

The constructor assigns all inputs in front of all globals and keeps the order of the script inside
either. If no variable begins with one that is declared later, a field is therefore read behind its
assignment, with one exception: an input that begins with a global reads it too early.
-/

namespace Advisor

/-- What the variable begins with has the name in it. -/
def Variable.Mentions (v : Variable) (name : String) : Prop :=
  ∃ e ∈ v.initial, .identifier name ∈ e.nodes

namespace Expression.Frame

private theorem nodes_subset_fill (frame : Frame) (e : Expression) :
    e.nodes ⊆ (frame.fill e).nodes := by
  intro n hn
  cases frame with
  | argument callee before after =>
    rw [fill, nodes, nodesAll_eq]
    exact List.mem_cons_of_mem _ (List.mem_flatMap.mpr ⟨e, by simp, hn⟩)
  | _ => simp [fill, nodes, hn]

private theorem mem_nodes_foldr (frames : List Frame) (e : Expression) :
    e ∈ (frames.foldr fill e).nodes := by
  induction frames with
  | nil => exact e.self_mem_nodes
  | cons frame frames ih => exact frame.nodes_subset_fill _ ih

end Expression.Frame

namespace Partition

/-- No variable begins with itself or with one behind it. -/
def DefinedFirst : List Variable → Prop
  | [] => True
  | v :: rest => (∀ u ∈ v :: rest, ¬ v.Mentions u.name) ∧ DefinedFirst rest

theorem DefinedFirst.sublist {vs : List Variable} (h : DefinedFirst vs) {v w : Variable}
    (hv : v ∈ vs) (hw : w ∈ vs) (hmentions : w.Mentions v.name) : [v, w].Sublist vs := by
  induction vs with
  | nil => exact absurd hv List.not_mem_nil
  | cons u rest ih =>
    obtain ⟨hself, hrest⟩ := h
    rcases List.mem_cons.mp hw with rfl | hlater
    · exact absurd hmentions (hself v hv)
    · rcases List.mem_cons.mp hv with rfl | hv
      · exact (List.singleton_sublist.mpr hlater).cons_cons v
      · exact (ih hrest hv hlater).cons u

private theorem not_sublist_swap {α : Type} {a b : α} {l : List α} (hl : l.Nodup)
    (h : [a, b].Sublist l) :
    ¬ [b, a].Sublist l := by
  intro hswap
  obtain ⟨front, rest, rfl, ha, hb⟩ := List.cons_sublist_iff.mp h
  obtain ⟨front', rest', heq, hb', ha'⟩ := List.cons_sublist_iff.mp hswap
  rw [List.singleton_sublist] at hb ha'
  have hdisjoint := List.disjoint_of_nodup_append hl
  rcases List.append_eq_append_iff.mp heq with ⟨between, rfl, rfl⟩ | ⟨between, rfl, rfl⟩
  · exact hdisjoint ha (List.mem_append_right _ ha')
  · exact hdisjoint (List.mem_append_left _ hb') hb

private theorem assigned_ofDeclarations {ds : List Declaration}
    (hdistinct : ((variablesOf ds).map (·.name)).Nodup) :
    (ofDeclarations ds).assigned = inputsOf ds ++ globalsOf ds := by
  obtain ⟨hinputs, hglobals⟩ := ofDeclarations_sameVariables ds
  obtain ⟨hinputs', hglobals'⟩ := foldl_addVariable_fresh (p := empty) (variablesOf ds) hdistinct
  rw [Partition.assigned, hinputs, hglobals, hinputs', hglobals']
  rfl

private theorem mem_variablesOf {ds : List Declaration} {v : Variable} :
    v ∈ variablesOf ds ↔ .variable v ∈ ds := by
  rw [variablesOf, List.mem_filterMap]
  constructor
  · rintro ⟨u | f | kind, hd, hvariable⟩
    · exact Option.some.inj hvariable ▸ hd
    · exact absurd hvariable (Option.some_ne_none v).symm
    · exact absurd hvariable (Option.some_ne_none v).symm
  · intro h
    exact ⟨.variable v, h, rfl⟩

private theorem mem_assigned_of_distinct {ds : List Declaration}
    (hdistinct : ((variablesOf ds).map (·.name)).Nodup) {v : Variable} (h : .variable v ∈ ds) :
    v ∈ (ofDeclarations ds).assigned := by
  have hv := mem_variablesOf.mpr h
  rw [assigned_ofDeclarations hdistinct, List.mem_append, inputsOf, globalsOf, List.mem_filter,
    List.mem_filter]
  cases hflag : v.isInput with
  | true => exact Or.inl ⟨hv, rfl⟩
  | false => exact Or.inr ⟨hv, rfl⟩

/-- Declared in this order, two variables are assigned in it unless the first is a global and the
second is an input. -/
theorem sublist_assigned_iff {ds : List Declaration}
    (hdistinct : ((variablesOf ds).map (·.name)).Nodup) {v w : Variable}
    (hdeclared : [v, w].Sublist (variablesOf ds)) :
    ([v, w].Sublist (ofDeclarations ds).assigned ↔ (w.isInput = true → v.isInput = true)) ∧
      (w.isInput = true → v.isInput = false → [w, v].Sublist (ofDeclarations ds).assigned) := by
  have hnodup : (ofDeclarations ds).assigned.Nodup :=
    List.Nodup.of_map _ (ofDeclarations_settled ds).variable_nodup
  have hinput {u : Variable} (hu : u ∈ variablesOf ds) (hflag : u.isInput = true) :
      [u].Sublist (inputsOf ds) :=
    List.singleton_sublist.mpr (List.mem_filter.mpr ⟨hu, hflag⟩)
  have hglobal {u : Variable} (hu : u ∈ variablesOf ds) (hflag : u.isInput = false) :
      [u].Sublist (globalsOf ds) :=
    List.singleton_sublist.mpr (List.mem_filter.mpr ⟨hu, by rw [hflag]; rfl⟩)
  have hv : v ∈ variablesOf ds := hdeclared.subset List.mem_cons_self
  have hw : w ∈ variablesOf ds := hdeclared.subset (List.mem_cons_of_mem _ List.mem_cons_self)
  have hsplit := assigned_ofDeclarations hdistinct
  have hearly (hwflag : w.isInput = true) (hvflag : v.isInput = false) :
      [w, v].Sublist (ofDeclarations ds).assigned := by
    rw [hsplit]
    exact (hinput hw hwflag).append (hglobal hv hvflag)
  refine ⟨⟨fun horder hwflag => ?_, fun hflags => ?_⟩, hearly⟩
  · by_contra hvflag
    exact not_sublist_swap hnodup horder (hearly hwflag (Bool.not_eq_true _ ▸ hvflag))
  · rw [hsplit]
    cases hwflag : w.isInput with
    | true =>
      have hkept := hdeclared.filter (·.isInput)
      rw [List.filter_cons_of_pos (hflags hwflag), List.filter_cons_of_pos hwflag] at hkept
      exact hkept.trans (List.sublist_append_left _ _)
    | false =>
      cases hvflag : v.isInput with
      | true => exact (hinput hv hvflag).append (hglobal hw hwflag)
      | false =>
        have hkept := hdeclared.filter (!·.isInput)
        rw [List.filter_cons_of_pos (by simp [hvflag]), List.filter_cons_of_pos (by simp [hwflag])]
          at hkept
        exact hkept.trans (List.sublist_append_right _ _)

end Partition

private theorem Scope.identifier_assigned {script : Script} {settings : Settings}
    (hqualify : settings.qualifyInputs = true) {v : Variable}
    (hv : v ∈ (Partition.ofDeclarations script.declarations).assigned) :
    (Expression.identifier v.name).render (contextOf script settings) = "this." ++ v.name := by
  have hname : (contextOf script settings).names.isGlobal v.name = true ∨
      (contextOf script settings).names.isInput v.name = true := by
    rw [contextOf, Names.isGlobal, Names.isInput, Partition.names, List.contains_iff_mem,
      List.contains_iff_mem]
    exact (List.mem_append.mp hv).symm.imp List.mem_map_of_mem List.mem_map_of_mem
  have hsettings : (contextOf script settings).settings.qualifyInputs = true := hqualify
  rw [Expression.render, Context.identifier, hsettings, Bool.true_and, if_pos]
  rw [Bool.or_eq_true]
  exact hname

open Advisor.Partition

/-- The constructor has one line for each variable. If no name repeats and no variable begins with a
later one, a field that is read for what a variable begins with is assigned on a line above that of
the variable, unless the variable is an input and the field is that of a global. Then it is assigned
on a line below. -/
theorem initial_read_iff (script : Script) (settings : Settings) (now : String)
    (hqualify : settings.qualifyInputs = true)
    (hdistinct : ((variablesOf script.declarations).map (·.name)).Nodup)
    (hfirst : DefinedFirst (variablesOf script.declarations)) {v w : Variable}
    (hv : .variable v ∈ script.declarations) (hw : .variable w ∈ script.declarations)
    {frames : List Expression.Frame}
    (hinitial : w.initial = some (frames.foldr Expression.Frame.fill (.identifier v.name))) :
    let c := Scope.contextOf script settings
    let assigned := (ofDeclarations script.declarations).assigned
    (∃ above below : List String, (Translation.ofScript script settings now).code
      = Text.followed "\n"
        (above ++ assigned.map (fun u => (u.assignment c).print settings 2) ++ below)) ∧
    (assigned.map (·.name)).Nodup ∧
    (∃ pre post : String,
      (∃ blank ∈ ["", " "], (w.assignment c).print settings 2
        = pre ++ blank ++ "this." ++ v.name ++ post) ∧
      ∀ e, ∃ blank ∈ ["", " "],
        (Site.initial w frames).text c e = pre ++ blank ++ e.render c ++ post) ∧
    ([v, w].Sublist assigned ↔ (w.isInput = true → v.isInput = true)) ∧
    (w.isInput = true → v.isInput = false → [w, v].Sublist assigned) := by
  intro c assigned
  have hdeclared : [v, w].Sublist (variablesOf script.declarations) := by
    apply hfirst.sublist (mem_variablesOf.mpr hv) (mem_variablesOf.mpr hw)
    exact ⟨_, hinitial, Expression.Frame.mem_nodes_foldr frames _⟩
  obtain ⟨horder, hearly⟩ := sublist_assigned_iff hdistinct hdeclared
  have hfield : (Expression.identifier v.name).render c = "this." ++ v.name :=
    Scope.identifier_assigned hqualify (mem_assigned_of_distinct hdistinct hv)
  obtain ⟨pre, post, hplace⟩ := (Site.initial w frames).exists_text c
  obtain ⟨blank, hblank, hread⟩ := hplace (.identifier v.name)
  rw [Site.text, ← hinitial, hfield, ← String.append_assoc] at hread
  exact ⟨Translation.exists_code_eq_assignments script settings now,
    (ofDeclarations_settled script.declarations).variable_nodup,
    ⟨pre, post, ⟨blank, hblank, hread⟩, hplace⟩, horder, hearly⟩

/-- Settings by which inputs are qualified. -/
def qualifyingInputs : Settings := { Settings.standard with qualifyInputs := true }

def baseVariable : Variable := ⟨"base", "int", none, false⟩

/-- An input that begins with a global. -/
def riskVariable : Variable := ⟨"risk", "int", some (.identifier "base"), true⟩

/-- A global that begins with an input. -/
def totalVariable : Variable :=
  ⟨"total", "int", some (.binary "*" (.identifier "risk") (.identifier "Digits")), false⟩

def totalScript : Script :=
  ⟨none, [.variable baseVariable, .variable riskVariable, .variable totalVariable]⟩

private theorem distinct_totalScript :
    ((variablesOf totalScript.declarations).map (·.name)).Nodup := by
  decide

private theorem definedFirst_totalScript : DefinedFirst (variablesOf totalScript.declarations) := by
  simp [totalScript, variablesOf, Declaration.toVariable?, DefinedFirst, Variable.Mentions,
    Expression.nodes, baseVariable, riskVariable, totalVariable]

theorem totalScript_ordered : qualifyingInputs.qualifyInputs = true ∧
    ((variablesOf totalScript.declarations).map (·.name)).Nodup ∧
    DefinedFirst (variablesOf totalScript.declarations) ∧
    .variable riskVariable ∈ totalScript.declarations ∧
    .variable totalVariable ∈ totalScript.declarations ∧
    totalVariable.initial
      = some ([.left "*" (.identifier "Digits")].foldr Expression.Frame.fill (.identifier "risk")) ∧
    [riskVariable, totalVariable].Sublist (ofDeclarations totalScript.declarations).assigned := by
  have hrisk : .variable riskVariable ∈ totalScript.declarations := by simp [totalScript]
  have htotal : .variable totalVariable ∈ totalScript.declarations := by simp [totalScript]
  have hinitial : totalVariable.initial = some
      ([.left "*" (.identifier "Digits")].foldr Expression.Frame.fill (.identifier "risk")) := rfl
  obtain ⟨-, -, -, horder, -⟩ := initial_read_iff totalScript qualifyingInputs "" rfl
    distinct_totalScript definedFirst_totalScript hrisk htotal hinitial
  exact ⟨rfl, distinct_totalScript, definedFirst_totalScript, hrisk, htotal, hinitial,
    horder.mpr (fun _ => rfl)⟩

/-- The input is assigned in front of the global that it begins with. -/
theorem not_initial_read : ¬ ∀ (script : Script) (settings : Settings),
    settings.qualifyInputs = true → ((variablesOf script.declarations).map (·.name)).Nodup →
      DefinedFirst (variablesOf script.declarations) →
        ∀ v w, .variable v ∈ script.declarations → .variable w ∈ script.declarations →
          ∀ frames : List Expression.Frame,
            w.initial = some (frames.foldr Expression.Frame.fill (.identifier v.name)) →
              [v, w].Sublist (ofDeclarations script.declarations).assigned := by
  intro hall
  have hbase : .variable baseVariable ∈ totalScript.declarations := by simp [totalScript]
  have hrisk : .variable riskVariable ∈ totalScript.declarations := by simp [totalScript]
  have hread := hall totalScript qualifyingInputs rfl distinct_totalScript definedFirst_totalScript
    baseVariable riskVariable hbase hrisk [] rfl
  have hdeclared : [baseVariable, riskVariable].Sublist (variablesOf totalScript.declarations) :=
    ((List.nil_sublist _).cons_cons riskVariable).cons_cons baseVariable
  obtain ⟨horder, -⟩ := sublist_assigned_iff distinct_totalScript hdeclared
  exact Bool.false_ne_true (horder.mp hread rfl)

end Advisor
