import Advisor.Wire.Node

/-!
# Records

A record is a set of named fields that is read into a draft, field by field, and taken from the
draft when all have been read. From a document the fields come in the order in which they are
written; unknown ones are passed over if their text is JSON at all. A document may also give a
record as an array of its fields. From an object of a value the fields are read in the order of
their names.
-/

namespace Advisor.Wire

/-- A record that is collected in a draft of type `δ` and gives an `α`. -/
structure Record (δ α : Type) where
  name : String
  /-- The fields in the order in which the record declares them. -/
  fields : List String
  /-- The fields in the order of their names. -/
  sorted : List String
  /-- The field that a name of a member stands for. -/
  field? : String → Option String
  blank : δ
  /-- Reads a field into the draft. -/
  put : {ρ : Type} → [Source ρ] → String → ρ → δ → Except Flaw δ
  /-- Takes the record from the draft, or names the first field that is missing. -/
  finish : δ → Except String α

namespace Record

variable {δ α : Type} (record : Record δ α)

/-- Reads the members of an object in a document in order. -/
def putMembers (levels : Nat) :
    List (Option String × Json.Document) → δ → Except Flaw δ
  | [], draft => .ok draft
  | (none, _) :: _, _ => .error .malformed
  | (some name, document) :: rest, draft =>
    match record.field? name with
    | some field => do
      let draft ← record.put field (Excerpt.mk levels document) draft
      putMembers levels rest draft
    | none => if document.wellFormed then putMembers levels rest draft else .error .malformed

/-- Reads the items of an array in a document as the fields in declared order. More items than
fields are an error of the text. -/
def putItems (levels : Nat) : List String → List Json.Document → δ → Except Flaw δ
  | _, [], draft => .ok draft
  | [], _ :: _, _ => .error .malformed
  | field :: fields, document :: rest, draft => do
    let draft ← record.put field (Excerpt.mk levels document) draft
    putItems levels fields rest draft

/-- Reads the record from a place in a document. -/
def ofExcerpt (e : Excerpt) : Except Flaw α :=
  match e.document, e.levels with
  | .object members closed, levels + 1 => do
    let draft ← record.putMembers levels members record.blank
    if closed then (record.finish draft).mapError .missing else throw .malformed
  | .array items closed, levels + 1 => do
    let draft ← record.putItems levels record.fields items record.blank
    if closed then
      (record.finish draft).mapError fun field =>
        .tooShort (record.fields.idxOf field) record.name record.fields.length
    else throw .malformed
  | .object _ _, 0 => .error .malformed
  | .array _ _, 0 => .error .malformed
  | document, _ => .error (mismatch (Found.ofDocument? document) (.record record.name))

/-- Reads the named fields, as far as the object has them. -/
def putFields (members : List (String × Json.Value)) : List String → δ → Except Flaw δ
  | [], draft => .ok draft
  | field :: fields, draft => do
    let draft ← match Json.latest field members with
      | some value => record.put field value draft
      | none => .ok draft
    putFields members fields draft

/-- Reads the record from the members of an object. -/
def ofMembers (members : List (String × Json.Value)) : Except Flaw α := do
  let draft ← record.putFields members record.sorted record.blank
  (record.finish draft).mapError .missing

end Record

/-- The levels that containers of a text may nest. -/
def nesting : Nat := 127

/-- Reads a text: first what stands at its front, then whether anything else follows. -/
def ofText {α : Type} (read : Excerpt → Except Flaw α) (s : String) : Except Flaw α := do
  let (document, complete) := Json.Document.ofText s
  let result ← read ⟨nesting, document⟩
  if complete then return result else throw .malformed

/-- Reads a text that holds one node. -/
def nodeOfText {α : Type} (read : Json.Value → Except Flaw α) (s : String) : Except Flaw α :=
  ofText (fun e => do read (← Source.value e)) s

end Advisor.Wire
