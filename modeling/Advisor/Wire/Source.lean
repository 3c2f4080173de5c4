import Advisor.Wire.Flaw

/-!
# What can be read from

Fields are read in the same way from a place in a document and from a value. A place in a document
may be damaged, and reading it goes through its items in order until it meets the damage; a value is
whole.
-/

namespace Advisor.Wire

/-- A place in a document, and how many levels deep containers may nest from there. -/
structure Excerpt where
  levels : Nat
  document : Json.Document

class Source (ρ : Type) where
  /-- What stands there, unless it is damaged. -/
  found? : ρ → Option Found
  /-- The items of a sequence, and whether all that were meant to be there are. -/
  items : ρ → Except Flaw (List ρ × Bool)
  /-- All of it, as a value. -/
  value : ρ → Except Flaw Json.Value
  /-- Whether a member that is given twice is noticed. -/
  noticesRepeats : Bool

/-- Something else is expected there. -/
def mismatch (found : Option Found) (expected : Expected) : Flaw :=
  match found with
  | some found => .mismatch found expected
  | none => .malformed

instance : Source Excerpt where
  found? e := Found.ofDocument? e.document
  items e :=
    match e.document, e.levels with
    | .array items closed, levels + 1 => .ok (items.map (Excerpt.mk levels), closed)
    | .array _ _, 0 => .error .malformed
    | document, _ => .error (mismatch (Found.ofDocument? document) .sequence)
  value e :=
    match e.document.value? e.levels with
    | some value => .ok value
    | none => .error .malformed
  noticesRepeats := true

instance : Source Json.Value where
  found? v := some (Found.ofValue v)
  items
    | .array items => .ok (items, true)
    | v => .error (.mismatch (.ofValue v) .sequence)
  value := .ok
  noticesRepeats := false

variable {ρ : Type} [Source ρ]

def text (r : ρ) : Except Flaw String :=
  match Source.found? r with
  | some (.text s) => .ok s
  | found => .error (mismatch found .text)

def flag (r : ρ) : Except Flaw Bool :=
  match Source.found? r with
  | some (.bool b) => .ok b
  | found => .error (mismatch found .flag)

def double (r : ρ) : Except Flaw Binary64 :=
  match Source.found? r with
  | some (.number (.integer i)) => .ok (Binary64.ofInt i)
  | some (.number (.real x)) => .ok x
  | found => .error (mismatch found .double)

/-- A natural number that fits a machine word. -/
def size (r : ρ) : Except Flaw Nat :=
  match Source.found? r with
  | some (.number (.integer i)) => if i < 0 then .error (.negative i) else .ok i.toNat
  | found => .error (mismatch found .size)

/-- Null, or what the reader reads. -/
def nullable {α : Type} (read : ρ → Except Flaw α) (r : ρ) : Except Flaw (Option α) :=
  match Source.found? r with
  | some .null => .ok none
  | _ => some <$> read r

/-- A sequence of what the reader reads, item by item. -/
def listOf {α : Type} (read : ρ → Except Flaw α) (r : ρ) : Except Flaw (List α) := do
  let (items, complete) ← Source.items r
  let read ← items.mapM read
  if complete then return read else throw .malformed

/-- A field that must be there. -/
def required {α : Type} (field : String) : Option α → Except Flaw α
  | some value => .ok value
  | none => .error (.missing field)

/-- Reads a field that may be given once. -/
def once {α : Type} (field : String) (earlier : Option α) (read : Except Flaw α) :
    Except Flaw (Option α) :=
  match earlier with
  | some _ => .error (.repeated field)
  | none => some <$> read

end Advisor.Wire
