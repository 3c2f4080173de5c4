import Advisor.Proofs.Partition.Order
import Advisor.Proofs.Render.Dependence
import Advisor.Translation

/-!
# Declarations in another order

How the variables, the functions and what is not supported are mixed does not show in a program. If
no name repeats, any other order gives the same lines, and these follow the new order: all values and
bodies are rendered against the names of the whole script, and which names there are does not depend
on the order.
-/

namespace Advisor.Translation

open Advisor.Partition

/-- The lines of a program from those of its parts: its header, the lines that assign the inputs and
the globals, and the lines of each method. -/
def assemble (header : List Line) (className : String) (inputs globals : List Line)
    (methods : List (List Line)) : List Line :=
  header ++ ⟨0, "class " ++ className ++ " \x7b"⟩
      :: (Line.braced
        ("constructor(" ++ parametersArgument ++ " = \x7b\x7d, " ++ Host.apiField ++ ") ")
        (assignApi :: (inputs ++ globals)) Line.close).map Line.deeper
    ++ methods.flatMap (fun method => ⟨0, ""⟩ :: method.map Line.deeper)
    ++ [⟨0, "\x7d"⟩, ⟨0, ""⟩, ⟨0, "module.exports = " ++ className ++ ";"⟩]

section

variable {script script' : Script} {settings : Settings} {now now' : String}

private theorem lines_eq_assemble (script : Script) (settings : Settings) (now : String) :
    lines script settings now
      = assemble (header script settings now) settings.className
        ((Scope.ofScript script settings).inputs.map assignInput)
        ((Scope.ofScript script settings).globals.map assignGlobal)
        ((Scope.ofScript script settings).functions.map
          (Function.lines (Scope.contextOf script settings))) := by
  rw [assemble, List.flatMap_map]
  rfl

theorem header_congr (htime : settings.includeTimestamp = false) (hname : script.name = script'.name) :
    header script settings now = header script' settings now' := by
  rw [header, header, label, label, hname, htime]
  rfl

theorem ofScript_congr
    (hinputs : (ofDeclarations script.declarations).inputs
      = (ofDeclarations script'.declarations).inputs)
    (hglobals : (ofDeclarations script.declarations).globals
      = (ofDeclarations script'.declarations).globals)
    (hfunctions : (ofDeclarations script.declarations).functions
      = (ofDeclarations script'.declarations).functions)
    (hheader : header script settings now = header script' settings now') :
    (ofScript script settings now).code = (ofScript script' settings now').code ∧
      (ofScript script settings now).descriptors = (ofScript script' settings now').descriptors := by
  have hcontext : Scope.contextOf script settings = Scope.contextOf script' settings := by
    rw [Scope.contextOf, Scope.contextOf, Partition.names, Partition.names, hinputs, hglobals,
      hfunctions]
  simp only [ofScript, program, lines_eq_assemble, Scope.descriptors, Scope.ofScript, hcontext,
    hinputs, hglobals, hfunctions, hheader, and_self]

/-- The scopes of two orders of the same declarations hold the same names. -/
theorem writeAlike_of_perm {name : Option String} {ds ds' : List Declaration} (h : Distinct ds)
    (hperm : ds'.Perm ds) (e : Expression) :
    (Scope.contextOf ⟨name, ds'⟩ settings).WriteAlike (Scope.contextOf ⟨name, ds⟩ settings) e := by
  obtain ⟨hinputs, hglobals, hfunctions⟩ := h.ofDeclarations_eq
  obtain ⟨hinputs', hglobals', hfunctions'⟩ := (h.perm hperm).ofDeclarations_eq
  have hcontains {ns ms : List String} (hnames : ns.Perm ms) (n : String) :
      ns.contains n = ms.contains n := by
    rw [Bool.eq_iff_iff, List.contains_iff_mem, List.contains_iff_mem]
    exact hnames.mem_iff
  refine Context.writeAlike_of_names (by rfl) ?_ ?_ ?_ e
  · intro n
    simp only [Scope.contextOf, Names.isGlobal, Partition.names, hglobals, hglobals']
    exact hcontains (((hperm.filterMap _).filter _).map _) n
  · intro n
    simp only [Scope.contextOf, Names.isInput, Partition.names, hinputs, hinputs']
    exact hcontains (((hperm.filterMap _).filter _).map _) n
  · intro n
    simp only [Scope.contextOf, Names.isFunction, Partition.names, hfunctions, hfunctions']
    exact hcontains ((hperm.filterMap _).map _) n

end

/-- Scripts with the same variables and the same functions in the same order give the same program
and descriptors, however they mix them. If no name repeats, any order of the declarations gives the
lines and descriptors of the script itself, one by one in the new order. -/
theorem ofScript_reordered (settings : Settings) (htime : settings.includeTimestamp = false) :
    (∀ script script' : Script, ∀ now now',
      script.name = script'.name →
      variablesOf script.declarations = variablesOf script'.declarations →
      functionsOf script.declarations = functionsOf script'.declarations →
      (ofScript script settings now).code = (ofScript script' settings now').code ∧
        (ofScript script settings now).descriptors = (ofScript script' settings now').descriptors) ∧
    (∀ script : Script, Distinct script.declarations → ∀ ds, ds.Perm script.declarations → ∀ now,
      let c := Scope.contextOf script settings
      (ofScript ⟨script.name, ds⟩ settings now).code
          = Line.printAll settings 0 (assemble (header script settings "") settings.className
            ((inputsOf ds).map fun v => assignInput (v.slot c))
            ((globalsOf ds).map fun v => assignGlobal (v.slot c))
            ((functionsOf ds).map (Function.lines c))) ++ "\n" ∧
        (ofScript ⟨script.name, ds⟩ settings now).descriptors
          = (inputsOf ds).map fun v => Descriptor.ofSlot (v.slot c)) := by
  constructor
  · intro script script' now now' hname hvariables hfunctions
    obtain ⟨hinputs, hglobals, hfunctions⟩ := ofDeclarations_congr hvariables hfunctions
    exact ofScript_congr hinputs hglobals hfunctions (header_congr htime hname)
  · intro script hdistinct ds hperm now c
    obtain ⟨hinputs, hglobals, hfunctions⟩ := (hdistinct.perm hperm).ofDeclarations_eq
    have halike (e : Expression) :
        (Scope.contextOf ⟨script.name, ds⟩ settings).WriteAlike c e :=
      writeAlike_of_perm hdistinct hperm e
    have hslot (v : Variable) : v.slot (Scope.contextOf ⟨script.name, ds⟩ settings) = v.slot c := by
      rw [Variable.slot, Variable.slot, Variable.renderInitial_congr]
      intro e _ n _
      exact halike n
    have hlines : Function.lines (Scope.contextOf ⟨script.name, ds⟩ settings)
        = Function.lines c := by
      funext f
      apply Function.lines_congr
      intro n _
      exact halike n
    have hheader : header ⟨script.name, ds⟩ settings now = header script settings "" :=
      header_congr htime rfl
    constructor
    · simp only [ofScript, program, lines_eq_assemble, hheader, Scope.ofScript, hinputs, hglobals,
        hfunctions, List.map_map, Function.comp_def, hslot, hlines]
    · simp only [ofScript, Scope.descriptors, Scope.ofScript, hinputs, List.map_map,
        Function.comp_def, hslot]

/-- Settings without the time of the translation. -/
def timeless : Settings := { Settings.standard with includeTimestamp := false }

/-- A script with a global that begins with one declared later, and a function that calls one declared
later. -/
def trailScript : Script :=
  ⟨some "Trail", [.variable ⟨"stop", "double", some (.identifier "distance"), false⟩,
    .function ⟨"OnTick", [], .evaluate (.call "Trail" [.identifier "lots"]), none⟩,
    .unsupported "EnumDeclaration", .variable ⟨"distance", "double", none, false⟩,
    .variable ⟨"lots", "double", none, true⟩,
    .function ⟨"Trail", [⟨"size", none⟩], .block [], some "void"⟩]⟩

/-- Backwards the script gives the same lines backwards; with the functions in front of the variables
it gives the same program. -/
theorem trailScript_reordered :
    timeless.includeTimestamp = false ∧ Distinct trailScript.declarations ∧
      trailScript.declarations.reverse.Perm trailScript.declarations ∧
      (ofScript ⟨trailScript.name, trailScript.declarations.reverse⟩ timeless "").code
        = Line.printAll timeless 0 (assemble (header trailScript timeless "") "ExpertAdvisor"
          [⟨0, "this.lots = parameters.lots !== undefined ? parameters.lots : 0.0;"⟩]
          [⟨0, "this.distance = 0.0;"⟩, ⟨0, "this.stop = this.distance;"⟩]
          [[⟨0, "Trail(size) \x7b"⟩, ⟨0, "\x7d"⟩],
            [⟨0, "OnTick() \x7b"⟩, ⟨1, "Trail(lots);"⟩, ⟨0, "\x7d"⟩]]) ++ "\n" ∧
      (ofScript ⟨trailScript.name, (functionsOf trailScript.declarations).map .function
          ++ (variablesOf trailScript.declarations).map .variable⟩ timeless "").code
        = (ofScript trailScript timeless "").code := by
  obtain ⟨mixed, reordered⟩ := ofScript_reordered timeless rfl
  have hdistinct : Distinct trailScript.declarations := by decide
  have hperm := List.reverse_perm trailScript.declarations
  refine ⟨rfl, hdistinct, hperm, ?_, ?_⟩
  · exact (reordered trailScript hdistinct _ hperm "").1
  · exact (mixed _ _ "" "" rfl rfl rfl).1

end Advisor.Translation
