import Advisor.Json.Document
import Advisor.Json.Notation
import Advisor.Text.Quoted

/-!
# Why a reading fails

A flaw is a cause. Inside a node it carries the tags of the nodes around it, outermost first, so
that a message leads to the node at fault.
-/

namespace Advisor.Wire

/-- What stands where something else is expected. -/
inductive Found where
  | null
  | bool (value : Bool)
  | number (value : Json.Number)
  | text (value : String)
  | sequence
  | map
deriving DecidableEq, Repr

/-- What is expected. -/
inductive Expected where
  | text
  | flag
  | sequence
  | double
  | size
  /-- The fields of the named record. -/
  | record (name : String)
deriving DecidableEq, Repr

inductive Flaw where
  /-- The text is not JSON, or not JSON that can be kept: a number too large, nesting too deep. -/
  | malformed
  /-- A node must be an object with a tag. -/
  | untagged
  | tagNotText
  | missing (field : String)
  /-- A field is given twice, under one spelling or under two. -/
  | repeated (field : String)
  | mismatch (found : Found) (expected : Expected)
  /-- A size must not be negative. -/
  | negative (value : Int)
  /-- A record written as an array ends before a field that it must have. -/
  | tooShort (length : Nat) (record : String) (fields : Nat)
  | notParameter
  /-- The flaw lies inside the node with this tag. -/
  | within (tag : String) (inner : Flaw)
deriving DecidableEq, Repr

namespace Found

def ofValue : Json.Value → Found
  | .null => .null
  | .bool b => .bool b
  | .number n => .number n
  | .text s => .text s
  | .array _ => .sequence
  | .object _ => .map

/-- What the front of a document shows; a damaged scalar shows nothing. -/
def ofDocument? : Json.Document → Option Found
  | .null => some .null
  | .bool b => some (.bool b)
  | .number n => n.map .number
  | .text s => s.map .text
  | .array _ _ => some .sequence
  | .object _ _ => some .map
  | .broken => none

def describe : Found → String
  | .null => "null"
  | .bool b => "boolean `" ++ (if b then "true" else "false") ++ "`"
  | .number (.integer i) => "integer `" ++ String.ofList (Json.integerNotation i) ++ "`"
  | .number (.real x) => "floating point `" ++ String.ofList (Json.realNotation x) ++ "`"
  | .text s => "string " ++ Text.quote s
  | .sequence => "sequence"
  | .map => "map"

end Found

def Expected.describe : Expected → String
  | .text => "a string"
  | .flag => "a boolean"
  | .sequence => "a sequence"
  | .double => "f64"
  | .size => "usize"
  | .record name => "struct " ++ name

def Flaw.message : Flaw → String
  | .malformed => "malformed JSON"
  | .untagged => "node without a \"type\" tag"
  | .tagNotText => "node \"type\" must be a string"
  | .missing field => "missing field `" ++ field ++ "`"
  | .repeated field => "duplicate field `" ++ field ++ "`"
  | .mismatch found expected =>
    "invalid type: " ++ found.describe ++ ", expected " ++ expected.describe
  | .negative value =>
    "invalid value: " ++ (Found.number (.integer value)).describe ++ ", expected "
      ++ Expected.size.describe
  | .tooShort length record fields =>
    "invalid length " ++ toString length ++ ", expected struct " ++ record ++ " with "
      ++ toString fields ++ " elements"
  | .notParameter => "data did not match any variant of untagged enum ParameterNode"
  | .within tag inner => tag ++ ": " ++ inner.message

end Advisor.Wire
