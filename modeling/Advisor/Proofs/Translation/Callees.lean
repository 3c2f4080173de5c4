import Advisor.Proofs.Translation.Places

/-!
# Calls of the functions of a script

Where functions are qualified, a call of a function of the script is a call of its method, unless
the host has a function of that name: in contrast to the names of variables, those of functions are
looked up in the catalogue first.
-/

namespace Advisor

namespace Context

/-- The call of a method of the generated object. -/
def methodCall (c : Context) (name : String) (arguments : List Expression) : String :=
  "this." ++ name ++ "(" ++ Text.join ", " (arguments.map (Expression.render c)) ++ ")"

private theorem callee_eq_method_iff {c : Context} {name : String}
    (hqualify : c.settings.qualifyUserFunctions = true) (hfunction : c.names.isFunction name = true) :
    c.callee name = "this." ++ name ↔ Host.function? name = none := by
  have hfunctions : ∀ entry ∈ Host.functions, entry.2 ≠ "this." ++ entry.1 := by decide +kernel
  rw [callee]
  split
  · next target htarget =>
    obtain ⟨before, after, htable, -⟩ := List.lookup_eq_some_iff.mp htarget
    have hne : target ≠ "this." ++ name := hfunctions (name, target) (by simp [htable])
    simp [htarget, hne]
  · next hnone => simp [hnone, hqualify, hfunction]

private theorem call_eq_methodCall_iff {c : Context} {name : String} {arguments : List Expression}
    (hqualify : c.settings.qualifyUserFunctions = true) (hfunction : c.names.isFunction name = true) :
    (Expression.call name arguments).render c = c.methodCall name arguments ↔
      Host.function? name = none := by
  rw [← callee_eq_method_iff hqualify hfunction, methodCall, Expression.render,
    Expression.renderAll_eq, String.append_left_inj, String.append_left_inj, String.append_left_inj]

end Context

private theorem Scope.isFunction_contextOf {script : Script} {f : Function}
    (h : .function f ∈ script.declarations) (settings : Settings) :
    (contextOf script settings).names.isFunction f.name = true := by
  have hname : f.name ∈ (Partition.ofDeclarations script.declarations).functions.map (·.name) := by
    by_contra hmissing
    have settled := Partition.ofDeclarations_settled script.declarations
    exact settled.function_notMem_iff.mp hmissing f h rfl
  rw [contextOf, Names.isFunction, Partition.names, List.contains_iff_mem]
  exact hname

/-- Wherever a function of the script is called, in a body or in what a variable begins with, the
program calls its method exactly if the host has no function of that name. The place in the text is
the one that any other expression would take. -/
theorem call_rendered_iff (script : Script) (settings : Settings) (now : String)
    (hqualify : settings.qualifyUserFunctions = true) {f : Function}
    (hdeclared : .function f ∈ script.declarations) {arguments : List Expression} {site : Site}
    (hsite : site.Holds script (.call f.name arguments)) :
    ∃ before pre post after : String,
      (∃ blank ∈ ["", " "], (Translation.ofScript script settings now).code
        = before ++ pre ++ blank
          ++ (Expression.call f.name arguments).render (Scope.contextOf script settings)
          ++ post ++ after) ∧
      (∀ e, ∃ blank ∈ ["", " "], site.text (Scope.contextOf script settings) e
        = pre ++ blank ++ e.render (Scope.contextOf script settings) ++ post) ∧
      ((Expression.call f.name arguments).render (Scope.contextOf script settings)
          = (Scope.contextOf script settings).methodCall f.name arguments ↔
        Host.function? f.name = none) := by
  obtain ⟨before, pre, post, after, hcode, hplace⟩ := hsite.exists_place settings now
  have hfunction := Scope.isFunction_contextOf hdeclared settings
  exact ⟨before, pre, post, after, hcode, hplace,
    Context.call_eq_methodCall_iff hqualify hfunction⟩

/-- Settings by which functions of the script are qualified. -/
def qualifyingFunctions : Settings := { Settings.standard with qualifyUserFunctions := true }

def lotsFunction : Function := ⟨"Lots", [⟨"price", none⟩], .returns (some (.identifier "price")), none⟩

/-- A function with the name of a predefined one. -/
def printFunction : Function := ⟨"Print", [], .block [], none⟩

/-- A call inside the argument of another, both of functions of the script. -/
def tickFunction : Function :=
  ⟨"OnTick", [], .returns (some (.call "Print" [.call "Lots" [.identifier "Bid"]])), none⟩

def lotsScript : Script :=
  ⟨none, [.function lotsFunction, .function printFunction, .function tickFunction]⟩

private theorem tickFunction_mem :
    tickFunction ∈ (Partition.ofDeclarations lotsScript.declarations).functions := by
  simp [lotsScript, Partition.ofDeclarations, Partition.add, Partition.addFunction, Partition.empty,
    lotsFunction, printFunction, tickFunction]

def lotsSite : Site := .body tickFunction ⟨[], .returned, [.argument "Print" [] []]⟩

theorem lotsScript_called : qualifyingFunctions.qualifyUserFunctions = true ∧
    .function lotsFunction ∈ lotsScript.declarations ∧
    lotsSite.Holds lotsScript (.call "Lots" [.identifier "Bid"]) ∧
    ∃ before pre post after : String, ∃ blank ∈ ["", " "],
      (Translation.ofScript lotsScript qualifyingFunctions "").code
        = before ++ pre ++ blank ++ "this.Lots(this.api.getBid())" ++ post ++ after := by
  have hdeclared : .function lotsFunction ∈ lotsScript.declarations := by simp [lotsScript]
  have hholds : lotsSite.Holds lotsScript (.call "Lots" [.identifier "Bid"]) :=
    ⟨tickFunction_mem, rfl⟩
  obtain ⟨before, pre, post, after, hcode, -, hmethod⟩ :=
    call_rendered_iff lotsScript qualifyingFunctions "" rfl hdeclared hholds
  have hcall : (Expression.call "Lots" [.identifier "Bid"]).render
      (Scope.contextOf lotsScript qualifyingFunctions) = "this.Lots(this.api.getBid())" :=
    hmethod.mpr (by decide +kernel)
  obtain ⟨blank, hblank, htext⟩ := hcode
  refine ⟨rfl, hdeclared, hholds, before, pre, post, after, blank, hblank, ?_⟩
  rw [htext]
  exact congrArg (fun call => before ++ pre ++ blank ++ call ++ post ++ after) hcall

/-- The function of the script is declared, but the one of the host is called. -/
theorem not_call_rendered : ¬ ∀ (script : Script) (settings : Settings),
    settings.qualifyUserFunctions = true → ∀ f, .function f ∈ script.declarations →
      ∀ (arguments : List Expression) (site : Site),
        site.Holds script (.call f.name arguments) →
          (Expression.call f.name arguments).render (Scope.contextOf script settings)
            = (Scope.contextOf script settings).methodCall f.name arguments := by
  intro hall
  have hdeclared : .function printFunction ∈ lotsScript.declarations := by simp [lotsScript]
  have hholds : (Site.body tickFunction ⟨[], .returned, []⟩).Holds lotsScript
      (.call "Print" [.call "Lots" [.identifier "Bid"]]) :=
    ⟨tickFunction_mem, rfl⟩
  have hprint := hall lotsScript qualifyingFunctions rfl printFunction hdeclared _ _ hholds
  have htable : Host.function? "Print" = none :=
    (Context.call_eq_methodCall_iff rfl (Scope.isFunction_contextOf hdeclared _)).mp hprint
  exact absurd htable (by decide +kernel)

end Advisor
