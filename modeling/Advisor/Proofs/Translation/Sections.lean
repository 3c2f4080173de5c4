import Advisor.Proofs.Render.LocalNames

/-!
# Sections of a program

A program is its lines, each with its line break. Its methods stand at the end, each behind a blank
line, as they are rendered by themselves.
-/

namespace Advisor

namespace Text

theorem followed_append (separator : String) (ss ts : List String) :
    followed separator (ss ++ ts) = followed separator ss ++ followed separator ts := by
  induction ss with
  | nil => rw [List.nil_append, followed, String.empty_append]
  | cons s ss ih => simp only [List.cons_append, followed, ih, String.append_assoc]

private theorem join_append_separator (separator : String) {ss : List String} (h : ss ≠ []) :
    join separator ss ++ separator = followed separator ss := by
  induction ss with
  | nil => exact absurd rfl h
  | cons s ss ih =>
    cases ss with
    | nil => simp [join, followed]
    | cons t ss => rw [join, followed, String.append_assoc, ih (by simp)]

end Text

namespace Translation

/-- The methods as they stand in the program, in order. -/
def methodTexts (script : Script) (settings : Settings) : List String :=
  let scope := Scope.ofScript script settings
  scope.functions.map (Function.render scope.context 1)

/-- A program from its first method on. -/
def ending (className : String) (methods : List String) : String :=
  Text.followed "\n" (methods.flatMap fun m => ["", m])
    ++ "\x7d\n\nmodule.exports = " ++ className ++ ";\n"

theorem code_eq_followed (script : Script) (settings : Settings) (now : String) :
    (ofScript script settings now).code
      = Text.followed "\n" ((lines script settings now).map (Line.print settings 0)) :=
  Text.join_append_separator "\n" (by simp [lines])

theorem print_zero (settings : Settings) (text : String) :
    Line.print settings 0 ⟨0, text⟩ = text := by
  simp [Line.print, Settings.indentation]

private theorem followed_methodLines (scope : Scope) (f : Function) :
    Text.followed "\n" ((methodLines scope f).map (Line.print scope.context.settings 0))
      = Text.followed "\n" ["", f.render scope.context 1] := by
  have hlines : Text.followed "\n"
      (((f.lines scope.context).map Line.deeper).map (Line.print scope.context.settings 0))
        = f.render scope.context 1 ++ "\n" := by
    rw [← Text.join_append_separator _ (by simp [Function.lines, Line.braced])]
    exact congrArg (· ++ "\n") (Line.printAll_deeper scope.context.settings 0 _)
  rw [methodLines, List.map_cons, print_zero, Text.followed, hlines]
  simp [Text.followed]

private theorem followed_flatMap_methodLines (scope : Scope) (fs : List Function) :
    Text.followed "\n"
        ((fs.flatMap (methodLines scope)).map (Line.print scope.context.settings 0))
      = Text.followed "\n" ((fs.map (Function.render scope.context 1)).flatMap fun m => ["", m]) := by
  induction fs with
  | nil => rfl
  | cons f rest ih =>
    rw [List.flatMap_cons, List.map_append, Text.followed_append, followed_methodLines, ih,
      List.map_cons, List.flatMap_cons, Text.followed_append]

/-- A program up to its first method. -/
def beginning (script : Script) (settings : Settings) (now : String) : String :=
  Text.followed "\n" ((header script settings now
    ++ ⟨0, "class " ++ settings.className ++ " \x7b"⟩
      :: constructorLines (Scope.ofScript script settings)).map (Line.print settings 0))

theorem code_eq (script : Script) (settings : Settings) (now : String) :
    (ofScript script settings now).code = beginning script settings now
      ++ ending settings.className (methodTexts script settings) := by
  have hmethods := followed_flatMap_methodLines (Scope.ofScript script settings)
    (Scope.ofScript script settings).functions
  rw [code_eq_followed, lines, List.map_append, List.map_append, Text.followed_append,
    Text.followed_append, beginning, ending, methodTexts, ← hmethods]
  simp only [List.map_cons, List.map_nil, print_zero, Text.followed, String.append_assoc,
    String.empty_append, String.append_empty]
  rfl

/-- The scripts have the same methods, and their programs are the same from the first of them on. -/
def SameEnding (script : Script) (settings : Settings) (script' : Script) (settings' : Settings) :
    Prop :=
  methodTexts script settings = methodTexts script' settings' ∧
    ∀ now now', ∃ front front',
      (ofScript script settings now).code
          = front ++ ending settings.className (methodTexts script settings) ∧
        (ofScript script' settings' now').code
          = front' ++ ending settings.className (methodTexts script settings)

theorem sameEnding_of_methodTexts {script script' : Script} {settings settings' : Settings}
    (hclass : settings.className = settings'.className)
    (hmethods : methodTexts script settings = methodTexts script' settings') :
    SameEnding script settings script' settings' := by
  refine ⟨hmethods, fun now now' => ⟨beginning script settings now, beginning script' settings' now',
    code_eq script settings now, ?_⟩⟩
  rw [hclass, hmethods]
  exact code_eq script' settings' now'

end Translation

end Advisor
