import Advisor.Json.Writer
import Advisor.Scope

/-!
# Translations

A script becomes a JavaScript class. Its constructor stores the trading interface, then the inputs,
which the caller may set, then the globals; each function becomes a method. Beside the program
stands a description of each input for those who ask for its value.
-/

namespace Advisor

/-- What a form needs to know of an input. -/
structure Descriptor where
  name : String
  type : String
  defaultValue : String
  description : String
deriving DecidableEq, Repr

namespace Descriptor

def ofSlot (s : Slot) : Descriptor := ⟨s.name, s.type, s.initial, s.type ++ " parameter"⟩

def toValue (d : Descriptor) : Json.Value :=
  .object [("name", .text d.name), ("type", .text d.type), ("defaultValue", .text d.defaultValue),
    ("description", .text d.description)]

/-- The descriptors as one document. -/
def document (ds : List Descriptor) : String := (Json.Value.array (ds.map toValue)).prettyText

end Descriptor

/-- One descriptor for each input, in the order of the scope. -/
def Scope.descriptors (s : Scope) : List Descriptor := s.inputs.map Descriptor.ofSlot

structure Translation where
  code : String
  descriptors : List Descriptor
  warnings : List String
deriving DecidableEq, Repr

namespace Translation

/-- The argument of the constructor that carries the values of inputs. -/
def parametersArgument : String := "parameters"

/-- The name under which the script is announced. -/
def label (script : Script) (settings : Settings) : String :=
  script.name.getD settings.className

/-- The comment in front of the class, with the time of the translation if the settings ask for
it. -/
def header (script : Script) (settings : Settings) (now : String) : List Line :=
  [⟨0, "/**"⟩, ⟨0, " * Expert Advisor: " ++ label script settings⟩,
    ⟨0, " * Translated from MQL5 by ea-translator."⟩]
    ++ (if settings.includeTimestamp then [⟨0, " * Generated at " ++ now⟩] else [])
    ++ [⟨0, " */"⟩, ⟨0, ""⟩]

/-- The line that takes the value of an input from the caller or else from the script. -/
def assignInput (s : Slot) : Line :=
  let given := parametersArgument ++ "." ++ s.name
  ⟨0, "this." ++ s.name ++ " = " ++ given ++ " !== undefined ? " ++ given ++ " : " ++ s.initial
    ++ ";"⟩

/-- The line that sets a global. -/
def assignGlobal (s : Slot) : Line := ⟨0, "this." ++ s.name ++ " = " ++ s.initial ++ ";"⟩

/-- The line that stores the trading interface. -/
def assignApi : Line := ⟨0, "this." ++ Host.apiField ++ " = " ++ Host.apiField ++ ";"⟩

/-- The lines in the body of the constructor. -/
def assignments (scope : Scope) : List Line :=
  assignApi :: (scope.inputs.map assignInput ++ scope.globals.map assignGlobal)

/-- The constructor, one level inside the class. -/
def constructorLines (scope : Scope) : List Line :=
  (Line.braced ("constructor(" ++ parametersArgument ++ " = \x7b\x7d, " ++ Host.apiField ++ ") ")
    (assignments scope) Line.close).map Line.deeper

/-- A blank line and the method, one level inside the class. -/
def methodLines (scope : Scope) (f : Function) : List Line :=
  ⟨0, ""⟩ :: (f.lines scope.context).map Line.deeper

/-- The lines of the whole program. -/
def lines (script : Script) (settings : Settings) (now : String) : List Line :=
  let scope := Scope.ofScript script settings
  header script settings now
    ++ ⟨0, "class " ++ settings.className ++ " \x7b"⟩ :: constructorLines scope
    ++ scope.functions.flatMap (methodLines scope)
    ++ [⟨0, "\x7d"⟩, ⟨0, ""⟩, ⟨0, "module.exports = " ++ settings.className ++ ";"⟩]

/-- The program text; every line ends with a line break. -/
def program (script : Script) (settings : Settings) (now : String) : String :=
  Line.printAll settings 0 (lines script settings now) ++ "\n"

/-- Translates a script. The time is used only if the settings ask for it. -/
def ofScript (script : Script) (settings : Settings) (now : String) : Translation :=
  let scope := Scope.ofScript script settings
  { code := program script settings now
    descriptors := scope.descriptors
    warnings := scope.warnings.map Warning.message }

end Translation

end Advisor
