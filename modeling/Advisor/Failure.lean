import Advisor.Json.Value

/-!
# Failures

What can go wrong between the files and the translation. The translation itself does not fail.
-/

namespace Advisor

inductive Failure where
  | fileNotFound (path : String)
  | fileRead (detail : String)
  | fileWrite (detail : String)
  | invalidScript (detail : String)
  | invalidSettings (detail : String)
  | serialization (detail : String)
deriving DecidableEq, Repr

namespace Failure

/-- The code by which other programs tell failures apart. -/
def code : Failure → String
  | fileNotFound _ => "FILE_NOT_FOUND"
  | fileRead _ => "FILE_READ"
  | fileWrite _ => "FILE_WRITE"
  | invalidScript _ => "INVALID_AST"
  | invalidSettings _ => "INVALID_CONFIG"
  | serialization _ => "SERIALIZATION"

def message : Failure → String
  | fileNotFound path => "File not found: " ++ path
  | fileRead detail => "Failed to read file: " ++ detail
  | fileWrite detail => "Failed to write file: " ++ detail
  | invalidScript detail => "Invalid AST: " ++ detail
  | invalidSettings detail => "Invalid configuration: " ++ detail
  | serialization detail => "Serialization error: " ++ detail

/-- The failure as an object for other programs. -/
def toValue (f : Failure) : Json.Value :=
  .object [("code", .text f.code), ("message", .text f.message)]

end Failure

end Advisor
