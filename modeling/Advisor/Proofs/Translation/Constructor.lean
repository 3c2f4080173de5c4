import Advisor.Proofs.JavaScript.Indentation
import Advisor.Proofs.Translation.Sections

/-!
# The lines of the constructor

If no name, operator or kind breaks a line, the constructor has one line for each input, as it is
described, and then one for each global.
-/

namespace Advisor

section Unbroken

/-- No name, operator or kind in the variable has a line break. -/
def Variable.Unbroken (v : Variable) : Prop := OneLine v.name ∧ ∀ e ∈ v.initial, e.Unbroken

def Function.Unbroken (f : Function) : Prop :=
  OneLine f.name ∧ (∀ p ∈ f.parameters, OneLine p.name) ∧ f.body.Unbroken

def Declaration.Unbroken : Declaration → Prop
  | .variable v => v.Unbroken
  | .function f => f.Unbroken
  | .unsupported kind => OneLine kind

def Script.Unbroken (script : Script) : Prop :=
  (∀ name ∈ script.name, OneLine name) ∧ ∀ d ∈ script.declarations, d.Unbroken

end Unbroken

namespace Text

/-- The lines of a text. -/
def lines (s : String) : List String := (s.toList.splitOn '\n').map String.ofList

private theorem lines_append {s : String} (h : OneLine s) (rest : String) :
    lines (s ++ "\n" ++ rest) = s :: lines rest := by
  have hsplit : (s ++ "\n" ++ rest).toList = s.toList ++ '\n' :: rest.toList := by simp
  have hline : ∀ c ∈ s.toList, (c == '\n') = false := by
    intro c hc
    rw [beq_eq_false_iff_ne]
    rintro rfl
    exact h hc
  rw [lines, hsplit, List.splitOn_eq_splitOnP,
    List.splitOnP_append_cons_of_forall_mem hline _ rfl, List.map_cons, String.ofList_toList, lines,
    List.splitOn_eq_splitOnP]

private theorem lines_followed {ss : List String} (h : ∀ s ∈ ss, OneLine s) (rest : String) :
    lines (followed "\n" ss ++ rest) = ss ++ lines rest := by
  induction ss with
  | nil => rw [followed, String.empty_append, List.nil_append]
  | cons s ss ih =>
    obtain ⟨hs, hss⟩ := List.forall_mem_cons.mp h
    rw [followed, String.append_assoc, lines_append hs, ih hss, List.cons_append]

end Text

/-- The line that takes the value of an input from the caller, or else the default that is described. -/
def Descriptor.assignment (d : Descriptor) : String :=
  "this." ++ d.name ++ " = parameters." ++ d.name ++ " !== undefined ? parameters." ++ d.name ++ " : "
    ++ d.defaultValue ++ ";"

/-- The line that sets a global. -/
def Slot.assignment (s : Slot) : String := "this." ++ s.name ++ " = " ++ s.initial ++ ";"

namespace Settings

variable (settings : Settings)

/-- The line that begins the constructor. -/
def constructorOpening : String :=
  settings.indentation 1 ++ "constructor(parameters = \x7b\x7d, api) \x7b"

/-- The line that ends the constructor. -/
def constructorClosing : String := settings.indentation 1 ++ "\x7d"

/-- The lines in between: that of the trading interface, one for each input and one for each global. -/
def constructorBody (ds : List Descriptor) (globals : List Slot) : List String :=
  ("this.api = api;" :: (ds.map Descriptor.assignment ++ globals.map Slot.assignment)).map
    (settings.indentation 2 ++ ·)

/-- The first constructor in the text has these lines as its body. -/
def ReadsConstructor (code : String) (body : List String) : Prop :=
  ∃ before after, Text.lines code
      = before ++ settings.constructorOpening :: (body ++ settings.constructorClosing :: after) ∧
    settings.constructorOpening ∉ before ∧ settings.constructorClosing ∉ body

end Settings

namespace Translation

variable {script : Script} {settings : Settings}

theorem oneLine_ofSeconds (seconds : Nat) : OneLine (Timestamp.ofSeconds seconds) := by
  have hpadded (width n : Nat) : OneLine (Timestamp.padded width n) :=
    JavaScript.not_mem_padded (by decide) width n
  simp only [Timestamp.ofSeconds, oneLine_append, hpadded]
  decide

private theorem text_assignInput (s : Slot) :
    (assignInput s).text = (Descriptor.ofSlot s).assignment := by
  have hgiven : parametersArgument ++ "." ++ s.name = "parameters." ++ s.name := rfl
  have hassigned (rest : String) : " = " ++ ("parameters." ++ rest) = " = parameters." ++ rest := by
    rw [← String.append_assoc]
    rfl
  have hasked (rest : String) : " !== undefined ? " ++ ("parameters." ++ rest)
      = " !== undefined ? parameters." ++ rest := by
    rw [← String.append_assoc]
    rfl
  simp only [assignInput, hgiven, Descriptor.assignment, Descriptor.ofSlot, String.append_assoc,
    hassigned, hasked]

private theorem print_body (scope : Scope) (settings : Settings) :
    ((assignments scope).map fun l => l.deeper.deeper.print settings 0)
      = settings.constructorBody scope.descriptors scope.globals := by
  have htexts : (assignments scope).map (·.text) = "this.api = api;" ::
      (scope.descriptors.map Descriptor.assignment ++ scope.globals.map Slot.assignment) := by
    rw [assignments, Scope.descriptors, List.map_cons, List.map_append, List.map_map, List.map_map,
      List.map_map]
    congr 2
    exact List.map_congr_left fun s _ => text_assignInput s
  have hlevels : ∀ l ∈ assignments scope, l.deeper.deeper.print settings 0
      = settings.indentation 2 ++ l.text := by
    intro l hl
    have hzero : l.level = 0 := by
      simp only [assignments, List.mem_cons, List.mem_append, List.mem_map] at hl
      rcases hl with rfl | ⟨s, -, rfl⟩ | ⟨s, -, rfl⟩ <;> rfl
    simp only [Line.print, Line.deeper, hzero, Nat.zero_add, Nat.reduceAdd]
  rw [Settings.constructorBody, ← htexts, List.map_map]
  exact List.map_congr_left hlevels

private theorem print_constructorLines (scope : Scope) (settings : Settings) :
    (constructorLines scope).map (Line.print settings 0)
      = settings.constructorOpening ::
        (settings.constructorBody scope.descriptors scope.globals
          ++ [settings.constructorClosing]) := by
  rw [← print_body, constructorLines, Line.braced, Line.close]
  simp only [List.map_cons, List.map_append, List.map_map, List.map_nil]
  rfl

/-- The first character of a text that is no blank. -/
def firstMark (s : String) : Option Char := (s.toList.dropWhile (· = ' ')).head?

private theorem firstMark_indentation (settings : Settings) (level : Nat) (s : String) :
    firstMark (settings.indentation level ++ s) = firstMark s := by
  have hblanks : ∀ c ∈ List.replicate (settings.indent * level) ' ', decide (c = ' ') = true := by
    simp
  rw [firstMark, String.toList_append, Settings.indentation, String.toList_ofList,
    List.dropWhile_append_of_pos hblanks, firstMark]

private theorem one_le_indent_of_validate (h : settings.validate = .ok ()) :
    1 ≤ settings.indent := by
  rw [Settings.validate] at h
  split at h
  · simp at h
  · split at h
    · simp at h
    · next hindent => exact (not_not.mp hindent).1

private theorem firstMark_of_mem_header {script : Script} {now s : String}
    (h : s ∈ (header script settings now).map (Line.print settings 0)) :
    s.toList.head? ≠ some ' ' ∨ firstMark s = some '*' := by
  have hlines : ∀ l ∈ header script settings now, l.level = 0 ∧
      (l.text.toList.head? ≠ some ' ' ∨ firstMark l.text = some '*') := by
    simp only [header, List.forall_mem_append, List.forall_mem_cons, List.not_mem_nil,
      false_implies, implies_true, and_true, true_and]
    refine ⟨⟨⟨by decide, by simp [firstMark], by decide⟩, fun l hl => ?_⟩, by decide, by decide⟩
    split at hl
    · rw [List.mem_singleton.mp hl]
      simp [firstMark]
    · exact absurd hl List.not_mem_nil
  obtain ⟨⟨level, text⟩, hl, rfl⟩ := List.mem_map.mp h
  obtain ⟨rfl, htext⟩ := hlines _ hl
  rwa [print_zero]

private theorem constructorOpening_notMem (hindent : 1 ≤ settings.indent) (script : Script)
    (now : String) :
    settings.constructorOpening ∉
      (header script settings now).map (Line.print settings 0)
        ++ ["class " ++ settings.className ++ " \x7b"] := by
  have hhead : settings.constructorOpening.toList.head? = some ' ' := by
    obtain ⟨n, hn⟩ := Nat.exists_eq_add_of_le' hindent
    simp [Settings.constructorOpening, Settings.indentation, hn, List.replicate_succ]
  have hmark : firstMark settings.constructorOpening = some 'c' := by
    rw [Settings.constructorOpening, firstMark_indentation]
    decide
  intro hmem
  rcases List.mem_append.mp hmem with hheader | hclass
  · rcases firstMark_of_mem_header hheader with hline | hline
    · exact hline hhead
    · rw [hmark] at hline
      exact absurd hline (by decide)
  · rw [List.mem_singleton.mp hclass] at hhead
    simp at hhead

private theorem constructorClosing_notMem (ds : List Descriptor) (globals : List Slot) :
    settings.constructorClosing ∉ settings.constructorBody ds globals := by
  have hclosing : firstMark settings.constructorClosing = some '\x7d' := by
    rw [Settings.constructorClosing, firstMark_indentation]
    decide
  have hthis (rest : String) : firstMark ("this." ++ rest) = some 't' := by
    simp [firstMark]
  intro hmem
  obtain ⟨s, hs, hline⟩ := List.mem_map.mp hmem
  rw [← hline, firstMark_indentation] at hclosing
  simp only [List.mem_cons, List.mem_append, List.mem_map] at hs
  rcases hs with rfl | ⟨d, -, rfl⟩ | ⟨g, -, rfl⟩
  · exact absurd hclosing (by decide)
  · simp [Descriptor.assignment, String.append_assoc, hthis] at hclosing
  · simp [Slot.assignment, String.append_assoc, hthis] at hclosing

private theorem oneLine_className (h : settings.validate = .ok ()) : OneLine settings.className :=
  oneLine_of_isIdentifier (JavaScript.isIdentifier_of_validate h)

private theorem unbroken_header {now : String} (hsettings : settings.validate = .ok ())
    (hscript : script.Unbroken) (hnow : OneLine now) :
    Line.Unbroken (header script settings now) := by
  have hlabel : OneLine (label script settings) := by
    rw [label]
    cases hname : script.name with
    | none => exact oneLine_className hsettings
    | some name => exact hscript.1 name hname
  have htime : Line.Unbroken (if settings.includeTimestamp then
      [⟨0, " * Generated at " ++ now⟩] else []) := by
    split
    · exact Line.unbroken_singleton (oneLine_append.mpr ⟨by decide, hnow⟩)
    · exact fun l hl => absurd hl List.not_mem_nil
  have hfirst : Line.Unbroken [⟨0, "/**"⟩, ⟨0, " * Expert Advisor: " ++ label script settings⟩,
      ⟨0, " * Translated from MQL5 by ea-translator."⟩] := by
    simp only [Line.Unbroken, List.forall_mem_cons, oneLine_append, hlabel]
    decide
  have hlast : Line.Unbroken [⟨0, " */"⟩, ⟨0, ""⟩] :=
    (Line.unbroken_singleton (by decide)).append (Line.unbroken_singleton (by decide))
  exact (hfirst.append htime).append hlast

private theorem unbroken_constructorLines (hscript : script.Unbroken) (settings : Settings) :
    Line.Unbroken (constructorLines (Scope.ofScript script settings)) := by
  refine (Line.unbroken_braced (by decide) ?_ Line.unbroken_close).deeper
  refine JavaScript.unbroken_assignments fun v hv => ?_
  obtain ⟨hname, hinitial⟩ : v.Unbroken :=
    hscript.2 _ ((Partition.ofDeclarations_settled script.declarations).variable_declared hv)
  exact ⟨hname, Variable.oneLine_renderInitial hinitial⟩

/-- The constructor has the line of each descriptor and of each global, in order. -/
theorem readsConstructor {now : String} (hsettings : settings.validate = .ok ())
    (hscript : script.Unbroken) (hnow : OneLine now) :
    settings.ReadsConstructor (ofScript script settings now).code
      (settings.constructorBody (ofScript script settings now).descriptors
        (Scope.ofScript script settings).globals) := by
  have hclass : OneLine ("class " ++ settings.className ++ " \x7b") := by
    simp only [oneLine_append, oneLine_className hsettings]
    decide
  let scope := Scope.ofScript script settings
  let front := header script settings now
    ++ ⟨0, "class " ++ settings.className ++ " \x7b"⟩ :: constructorLines scope
  let back := scope.functions.flatMap (methodLines scope)
    ++ [⟨0, "\x7d"⟩, ⟨0, ""⟩, ⟨0, "module.exports = " ++ settings.className ++ ";"⟩]
  have hfront : ∀ s ∈ front.map (Line.print settings 0), OneLine s := by
    have hunbroken : Line.Unbroken front := (unbroken_header hsettings hscript hnow).append
      (List.forall_mem_cons.mpr ⟨hclass, unbroken_constructorLines hscript settings⟩)
    exact List.forall_mem_map.mpr fun l hl => JavaScript.not_mem_print (hunbroken l hl)
  have hcode : (ofScript script settings now).code
      = Text.followed "\n" (front.map (Line.print settings 0))
        ++ Text.followed "\n" (back.map (Line.print settings 0)) := by
    rw [code_eq_followed, ← Text.followed_append, ← List.map_append]
    simp [lines, front, back, scope]
  have hlines : front.map (Line.print settings 0)
      = (header script settings now).map (Line.print settings 0)
        ++ ("class " ++ settings.className ++ " \x7b") :: settings.constructorOpening
          :: (settings.constructorBody scope.descriptors scope.globals
            ++ [settings.constructorClosing]) := by
    rw [List.map_append, List.map_cons, print_zero, print_constructorLines]
  refine ⟨_, Text.lines (Text.followed "\n" (back.map (Line.print settings 0))), ?_,
    constructorOpening_notMem (one_le_indent_of_validate hsettings) script now,
    constructorClosing_notMem scope.descriptors scope.globals⟩
  rw [hcode, Text.lines_followed hfront, hlines]
  simp [ofScript, scope]

end Translation

end Advisor
