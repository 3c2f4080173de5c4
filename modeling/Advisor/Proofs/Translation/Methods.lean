import Advisor.Proofs.Partition.Edits
import Advisor.Proofs.Render.Dependence
import Advisor.Proofs.Translation.Sections

/-!
# What a method depends on

A method is rendered against the names of the whole script, but only those count that stand in the
body of its function. Scopes that agree on these give the same text, and no edit of declarations of
other names changes it.
-/

namespace Advisor

open Advisor.Partition

namespace Expression

def identifier? : Expression → Option String
  | identifier name => some name
  | _ => none

def callee? : Expression → Option String
  | call callee _ => some callee
  | _ => none

end Expression

namespace Statement

/-- The names that stand in the statement as identifiers. -/
def identifiers (s : Statement) : List String := s.expressionNodes.filterMap Expression.identifier?

/-- The names that are called in the statement. -/
def callees (s : Statement) : List String := s.expressionNodes.filterMap Expression.callee?

end Statement

namespace Function

/-- The name is that of the function or stands in its body. -/
def Concerns (f : Function) (name : String) : Prop :=
  name = f.name ∨ name ∈ f.body.identifiers ∨ name ∈ f.body.callees

instance (f : Function) (name : String) : Decidable (f.Concerns name) :=
  inferInstanceAs (Decidable (_ ∨ _ ∨ _))

/-- The declaration is of no name that concerns the function. -/
def Ignores (f : Function) (d : Declaration) : Prop := ∀ name ∈ d.name?, ¬ f.Concerns name

variable {f : Function} {d : Declaration} {n : String}

private theorem Ignores.name?_ne (h : f.Ignores d) (hn : f.Concerns n) : d.name? ≠ some n :=
  fun hname => h n hname hn

variable {ds ds' : List Declaration}

private theorem last_variable_of_edits (h : Relation.ReflTransGen (Edit f.Ignores) ds ds')
    (hn : f.Concerns n) : last (variablesNamed ds' n) = last (variablesNamed ds n) :=
  last_of_edits h fun _ hd => variableNamed_eq_none (hd.name?_ne hn)

private theorem last_function_of_edits (h : Relation.ReflTransGen (Edit f.Ignores) ds ds')
    (hn : f.Concerns n) : last (functionsNamed ds' n) = last (functionsNamed ds n) :=
  last_of_edits h fun _ hd => functionNamed_eq_none (hd.name?_ne hn)

end Function

namespace Context

/-- The contexts agree on the names in the body of the function, as far as the settings have them
looked up. -/
structure AgreeOn (f : Function) (c c' : Context) : Prop where
  isGlobal : ∀ n ∈ f.body.identifiers, c.names.isGlobal n = c'.names.isGlobal n
  isInput : c.settings.qualifyInputs = true →
    ∀ n ∈ f.body.identifiers, c.names.isInput n = c'.names.isInput n
  isFunction : c.settings.qualifyUserFunctions = true →
    ∀ n ∈ f.body.callees, c.names.isFunction n = c'.names.isFunction n

variable {f : Function} {c c' : Context}

private theorem AgreeOn.writeAlike (h : AgreeOn f c c') (hsettings : c.settings = c'.settings)
    {e : Expression} (he : e ∈ f.body.expressionNodes) : c.WriteAlike c' e := by
  cases e with
  | identifier name =>
    have hname : name ∈ f.body.identifiers := List.mem_filterMap.mpr ⟨_, he, rfl⟩
    exact identifier_congr hsettings (h.isGlobal name hname)
      fun hqualify => h.isInput hqualify name hname
  | call callee arguments =>
    have hcallee : callee ∈ f.body.callees := List.mem_filterMap.mpr ⟨_, he, rfl⟩
    exact callee_congr hsettings fun hqualify => h.isFunction hqualify callee hcallee
  | _ => trivial

private theorem AgreeOn.render_eq (h : AgreeOn f c c') (hsettings : c.settings = c'.settings)
    (depth : Nat) : f.render c depth = f.render c' depth := by
  rw [Function.render, Function.render, Function.lines_congr fun _ => h.writeAlike hsettings,
    hsettings]

private theorem agreeOn_of_edits {script script' : Script} (settings : Settings)
    (h : Relation.ReflTransGen (Edit f.Ignores) script.declarations script'.declarations) :
    AgreeOn f (Scope.contextOf script settings) (Scope.contextOf script' settings) where
  isGlobal := by
    intro n hn
    rw [Scope.contextOf, Scope.contextOf, isGlobal_names, isGlobal_names,
      Function.last_variable_of_edits h (.inr (.inl hn))]
  isInput := by
    intro _ n hn
    rw [Scope.contextOf, Scope.contextOf, isInput_names, isInput_names,
      Function.last_variable_of_edits h (.inr (.inl hn))]
  isFunction := by
    intro _ n hn
    rw [Scope.contextOf, Scope.contextOf, isFunction_names, isFunction_names,
      Function.last_function_of_edits h (.inr (.inr hn))]

end Context

namespace Translation

/-- The text stands in the program in the place of the method of the function: behind the methods of
the functions in front of it and before those of the functions behind it. -/
def HasMethod (script : Script) (settings : Settings) (now : String) (f : Function)
    (text : String) : Prop :=
  ∃ earlier later, (Scope.ofScript script settings).functions = earlier ++ f :: later ∧
    (ofScript script settings now).code = beginning script settings now
      ++ ending settings.className
        (earlier.map (Function.render (Scope.contextOf script settings) 1)
          ++ text :: later.map (Function.render (Scope.contextOf script settings) 1))

private theorem ending_inj {className s t : String} {before after : List String}
    (h : ending className (before ++ s :: after) = ending className (before ++ t :: after)) :
    s = t := by
  simpa [ending, Text.followed_append, Text.followed] using h

/-- A function that the script keeps has one text as its method. -/
theorem hasMethod_iff {script : Script} {f : Function}
    (hf : last (functionsNamed script.declarations f.name) = some f) (settings : Settings)
    (now text : String) :
    HasMethod script settings now f text ↔ text = f.render (Scope.contextOf script settings) 1 := by
  have hmem : f ∈ (Scope.ofScript script settings).functions :=
    (ofDeclarations_settled script.declarations).mem_of_last_function hf
  have hcode {earlier later : List Function}
      (hfunctions : (Scope.ofScript script settings).functions = earlier ++ f :: later) :
      methodTexts script settings = earlier.map (Function.render (Scope.contextOf script settings) 1)
        ++ f.render (Scope.contextOf script settings) 1
          :: later.map (Function.render (Scope.contextOf script settings) 1) := by
    rw [methodTexts, hfunctions, List.map_append, List.map_cons]
    rfl
  constructor
  · rintro ⟨earlier, later, hfunctions, htext⟩
    rw [code_eq, hcode hfunctions, String.append_right_inj] at htext
    exact (ending_inj htext).symm
  · rintro rfl
    obtain ⟨earlier, later, hfunctions⟩ := List.append_of_mem hmem
    exact ⟨earlier, later, hfunctions, by rw [code_eq, hcode hfunctions]⟩

/-- The programs of both scripts have one text as the method of the function, and it is the same. -/
def SameMethod (settings : Settings) (f : Function) (script script' : Script) : Prop :=
  ∃ text, ∀ now t, (HasMethod script settings now f t ↔ t = text) ∧
    (HasMethod script' settings now f t ↔ t = text)

private theorem sameMethod_of_agreeOn {settings : Settings} {f : Function} {script script' : Script}
    (hf : last (functionsNamed script.declarations f.name) = some f)
    (hf' : last (functionsNamed script'.declarations f.name) = some f)
    (h : Context.AgreeOn f (Scope.contextOf script settings) (Scope.contextOf script' settings)) :
    SameMethod settings f script script' := by
  refine ⟨f.render (Scope.contextOf script settings) 1, fun now t => ⟨hasMethod_iff hf _ _ _, ?_⟩⟩
  rw [hasMethod_iff hf', h.render_eq rfl]

/-- A function that is the last of its name keeps its method under all edits of declarations that do
not concern it, and has the same method in any two scripts that agree on the names in its body. -/
theorem method_framed (settings : Settings) (f : Function) :
    (∀ script script' : Script, last (functionsNamed script.declarations f.name) = some f →
      Relation.ReflTransGen (Edit f.Ignores) script.declarations script'.declarations →
        SameMethod settings f script script') ∧
    ∀ script script' : Script, last (functionsNamed script.declarations f.name) = some f →
      last (functionsNamed script'.declarations f.name) = some f →
      Context.AgreeOn f (Scope.contextOf script settings) (Scope.contextOf script' settings) →
        SameMethod settings f script script' := by
  constructor
  · intro script script' hf hedits
    have hf' : last (functionsNamed script'.declarations f.name) = some f :=
      (Function.last_function_of_edits hedits (.inl rfl)).trans hf
    exact sameMethod_of_agreeOn hf hf' (Context.agreeOn_of_edits settings hedits)
  · intro script script' hf hf' hagree
    exact sameMethod_of_agreeOn hf hf' hagree

/-- Settings by which inputs and functions of the script are qualified. -/
def qualifyingAll : Settings :=
  { Settings.standard with qualifyUserFunctions := true, qualifyInputs := true }

def exitFunction : Function :=
  ⟨"OnTick", [], .evaluate (.call "CloseAt" [.identifier "stop"]), none⟩

def exitScript : Script :=
  ⟨none, [.function exitFunction, .variable ⟨"lots", "double", none, true⟩,
    .variable ⟨"stop", "double", none, true⟩,
    .function ⟨"CloseAt", [⟨"price", none⟩], .block [], none⟩]⟩

/-- The script with the input in front of the function, and as a global at the end. -/
def editedExitScript : Script :=
  ⟨some "Exit", [.variable ⟨"lots", "double", none, true⟩, .function exitFunction,
    .variable ⟨"stop", "double", none, true⟩,
    .function ⟨"CloseAt", [⟨"price", none⟩], .block [], none⟩,
    .variable ⟨"lots", "int", some (.identifier "stop"), false⟩]⟩

/-- A script with other declarations of the names in the function. -/
def otherExitScript : Script :=
  ⟨none, [.function ⟨"CloseAt", [], .breaks, none⟩, .variable ⟨"stop", "int", none, false⟩,
    .variable ⟨"stop", "int", none, true⟩, .unsupported "EnumDeclaration",
    .function exitFunction]⟩

theorem exitScript_method :
    last (functionsNamed exitScript.declarations "OnTick") = some exitFunction ∧
    Relation.ReflTransGen (Edit exitFunction.Ignores) exitScript.declarations
      editedExitScript.declarations ∧
    HasMethod editedExitScript qualifyingAll "" exitFunction
      "  OnTick() \x7b\n    this.CloseAt(this.stop);\n  \x7d" ∧
    last (functionsNamed otherExitScript.declarations "OnTick") = some exitFunction ∧
    Context.AgreeOn exitFunction (Scope.contextOf exitScript qualifyingAll)
      (Scope.contextOf otherExitScript qualifyingAll) ∧
    SameMethod qualifyingAll exitFunction exitScript otherExitScript := by
  obtain ⟨hedited, hother⟩ := method_framed qualifyingAll exitFunction
  have hlast : last (functionsNamed exitScript.declarations "OnTick") = some exitFunction := rfl
  have hlast' : last (functionsNamed otherExitScript.declarations "OnTick") = some exitFunction := rfl
  have hignored {v : Variable} (hname : v.name = "lots") : exitFunction.Ignores (.variable v) := by
    rintro _ ⟨⟩
    rw [hname]
    decide
  have hedits : Relation.ReflTransGen (Edit exitFunction.Ignores) exitScript.declarations
      editedExitScript.declarations :=
    (Relation.ReflTransGen.single (.backward [] [_] _ (hignored rfl))).tail
      (.insert [_, _, _, _] [] (hignored rfl))
  have hagree : Context.AgreeOn exitFunction (Scope.contextOf exitScript qualifyingAll)
      (Scope.contextOf otherExitScript qualifyingAll) := ⟨by decide, by decide, by decide⟩
  have htext : HasMethod exitScript qualifyingAll "" exitFunction
      "  OnTick() \x7b\n    this.CloseAt(this.stop);\n  \x7d" :=
    (hasMethod_iff hlast _ _ _).mpr (by decide +kernel)
  obtain ⟨text, hsame⟩ := hedited exitScript editedExitScript hlast hedits
  have hmethod := (hsame "" _).2.mpr ((hsame "" _).1.mp htext)
  exact ⟨hlast, hedits, hmethod, hlast', hagree, hother _ _ hlast hlast' hagree⟩

end Translation

end Advisor
