import Advisor.Json.Writer
import Advisor.Settings.Basic
import Advisor.Wire.Record

/-!
# Settings as text

Every field may be left out and then has its standard value.
-/

namespace Advisor.Settings

open Wire

/-- The fields that have been read. -/
structure Draft where
  className : Option String
  indent : Option Nat
  includeTimestamp : Option Bool
  qualifyUserFunctions : Option Bool
  qualifyInputs : Option Bool

namespace Draft

def blank : Draft := ⟨none, none, none, none, none⟩

def put {ρ : Type} [Source ρ] (field : String) (r : ρ) (d : Draft) : Except Flaw Draft :=
  match field with
  | "className" => do return { d with className := ← once field d.className (text r) }
  | "indent" => do return { d with indent := ← once field d.indent (size r) }
  | "includeTimestamp" => do
    return { d with includeTimestamp := ← once field d.includeTimestamp (flag r) }
  | "qualifyUserFunctions" => do
    return { d with qualifyUserFunctions := ← once field d.qualifyUserFunctions (flag r) }
  | "qualifyInputs" => do return { d with qualifyInputs := ← once field d.qualifyInputs (flag r) }
  | _ => .ok d

def finish (d : Draft) : Settings where
  className := d.className.getD standard.className
  indent := d.indent.getD standard.indent
  includeTimestamp := d.includeTimestamp.getD standard.includeTimestamp
  qualifyUserFunctions := d.qualifyUserFunctions.getD standard.qualifyUserFunctions
  qualifyInputs := d.qualifyInputs.getD standard.qualifyInputs

end Draft

/-- The names of the fields in declared order. -/
def fields : List String :=
  ["className", "indent", "includeTimestamp", "qualifyUserFunctions", "qualifyInputs"]

def record : Record Draft Settings where
  name := "TranslatorConfig"
  fields := fields
  sorted := ["className", "includeTimestamp", "indent", "qualifyInputs", "qualifyUserFunctions"]
  field? name := fields.find? (· = name)
  blank := Draft.blank
  put := Draft.put
  finish d := .ok d.finish

/-- Reads settings from a text, without asking whether they are valid. -/
def ofText (s : String) : Except Flaw Settings := Wire.ofText record.ofExcerpt s

def toValue (s : Settings) : Json.Value :=
  .object [("className", .text s.className), ("indent", .number (.integer s.indent)),
    ("includeTimestamp", .bool s.includeTimestamp),
    ("qualifyUserFunctions", .bool s.qualifyUserFunctions),
    ("qualifyInputs", .bool s.qualifyInputs)]

/-- The settings as a document on one line. -/
def toText (s : Settings) : String := s.toValue.compactText

end Advisor.Settings
