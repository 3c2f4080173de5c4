import Advisor.Script.Declaration
import Advisor.Wire.Statement

/-!
# Functions, declarations and scripts as nodes
-/

namespace Advisor

open Wire

namespace Parameter

/-- The member as an optional text, if it is null, a text or not there. -/
def typeOf? (members : List (String × Json.Value)) : Option (Option String) :=
  match Json.latest "paramType" members with
  | none => some none
  | some .null => some none
  | some (.text type) => some (some type)
  | some _ => none

/-- A parameter is a name, or an object with a name and perhaps a type. -/
def ofValue? : Json.Value → Option Parameter
  | .text name => some ⟨name, none⟩
  | .object members =>
    match Json.latest "name" members, typeOf? members with
    | some (.text name), some type => some ⟨name, type⟩
    | _, _ => none
  | _ => none

/-- Whether a field of a parameter is given twice. -/
def repeatsField : Json.Value → Bool
  | .object members => Json.repeats "name" members || Json.repeats "paramType" members
  | _ => false

/-- Reads a parameter. Where repeated members are noticed, they make it something else. -/
def read {ρ : Type} [Source ρ] (r : ρ) : Except Flaw Parameter := do
  let value ← Source.value r
  if Source.noticesRepeats ρ && repeatsField value then throw .notParameter
  match ofValue? value with
  | some parameter => return parameter
  | none => throw .notParameter

end Parameter

namespace Function

/-- The fields of a function that have been read. -/
structure Draft where
  name : Option String
  parameters : Option (List Parameter)
  body : Option Statement
  returnType : Option (Option String)

namespace Draft

def blank : Draft := ⟨none, none, none, none⟩

def put {ρ : Type} [Source ρ] (field : String) (r : ρ) (d : Draft) : Except Flaw Draft :=
  match field with
  | "name" => do return { d with name := ← once field d.name (Wire.text r) }
  | "parameters" => do
    return { d with parameters := ← once field d.parameters (listOf Parameter.read r) }
  | "body" => do
    let read := do Statement.ofValue (← Source.value r)
    return { d with body := ← once field d.body read }
  | "returnType" => do
    return { d with returnType := ← once field d.returnType (nullable Wire.text r) }
  | _ => .ok d

def finish (d : Draft) : Except String Function := do
  let some name := d.name | throw "name"
  let some body := d.body | throw "body"
  return ⟨name, d.parameters.getD [], body, d.returnType.join⟩

end Draft

def record : Record Draft Function where
  name := "FunctionDeclaration"
  fields := ["name", "parameters", "body", "returnType"]
  sorted := ["body", "name", "parameters", "returnType"]
  field? name := ["name", "parameters", "body", "returnType"].find? (· = name)
  blank := Draft.blank
  put := Draft.put
  finish := Draft.finish

end Function

namespace Declaration

/-- The kinds of declaration nodes. -/
inductive Tag where
  | variableDeclaration
  | functionDeclaration
deriving DecidableEq, Repr

namespace Tag

def name : Tag → String
  | variableDeclaration => "VariableDeclaration"
  | functionDeclaration => "FunctionDeclaration"

def all : List Tag := [variableDeclaration, functionDeclaration]

def ofName? (name : String) : Option Tag := all.find? fun tag => tag.name = name

end Tag

/-- Reads the fields of a node of the kind. -/
def ofFields (members : List (String × Json.Value)) : Tag → Except Flaw Declaration
  | .variableDeclaration => return .variable (← Variable.record.ofMembers members)
  | .functionDeclaration => return .function (← Function.record.ofMembers members)

/-- Reads a declaration from a value. -/
def ofValue : Json.Value → Except Flaw Declaration
  | .object members => do
    let tag ← tagOf members
    match Tag.ofName? tag with
    | some known => (ofFields members known).mapError (Flaw.within tag)
    | none => return .unsupported tag
  | _ => .error .untagged

end Declaration

namespace Script

/-- The fields of a script that have been read. -/
structure Draft where
  name : Option (Option String)
  declarations : Option (List Declaration)

namespace Draft

def blank : Draft := ⟨none, none⟩

def put {ρ : Type} [Source ρ] (field : String) (r : ρ) (d : Draft) : Except Flaw Draft :=
  match field with
  | "name" => do return { d with name := ← once field d.name (nullable Wire.text r) }
  | "declarations" => do
    let read := listOf (fun r => do Declaration.ofValue (← Source.value r)) r
    return { d with declarations := ← once field d.declarations read }
  | _ => .ok d

def finish (d : Draft) : Except String Script := do
  let some declarations := d.declarations | throw "declarations"
  return ⟨d.name.join, declarations⟩

end Draft

/-- The declarations may also be given under the name `body`. -/
def field? : String → Option String
  | "name" => some "name"
  | "declarations" => some "declarations"
  | "body" => some "declarations"
  | _ => none

def record : Record Draft Script where
  name := "Program"
  fields := ["name", "declarations"]
  sorted := ["declarations", "name"]
  field? := field?
  blank := Draft.blank
  put := Draft.put
  finish := Draft.finish

/-- Reads a script from a text. -/
def ofText (s : String) : Except Flaw Script := Wire.ofText record.ofExcerpt s

end Script

end Advisor
