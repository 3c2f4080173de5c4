import Advisor.Binary64.Basic

/-!
# JSON values

What a reader keeps of a document that it takes whole. Members stay in the order and number in which
they were written; of several members of one name the last counts.
-/

namespace Advisor.Json

/-- Numbers written without point and exponent that fit a machine word stay integers. -/
inductive Number where
  | integer (value : Int)
  | real (value : Binary64)
deriving DecidableEq, Repr

inductive Value where
  | null
  | bool (value : Bool)
  | number (value : Number)
  | text (value : String)
  | array (items : List Value)
  | object (members : List (String × Value))
deriving Repr, Inhabited

/-- The last entry under the name. -/
def latest {α : Type} (name : String) : List (String × α) → Option α
  | [] => none
  | (key, value) :: rest =>
    match latest name rest with
    | some later => some later
    | none => if key = name then some value else none

theorem latest_eq_none_iff {α : Type} {name : String} {xs : List (String × α)} :
    latest name xs = none ↔ name ∉ xs.map (·.1) := by
  induction xs with
  | nil => simp [latest]
  | cons x xs ih =>
    rw [latest]
    cases h : latest name xs with
    | none => simp [ih.1 h, eq_comm]
    | some later =>
      have : name ∈ xs.map (·.1) := Classical.not_not.1 (mt ih.2 (by simp [h]))
      simp only [List.map_cons, List.mem_cons, this, or_true, not_true_eq_false, reduceCtorEq]

/-- Whether the name has two entries or more. -/
def repeats {α : Type} (name : String) (entries : List (String × α)) : Bool :=
  decide (2 ≤ entries.countP fun entry => entry.1 = name)

namespace Value

/-- The member under the name; only objects have members. -/
def get? (name : String) : Value → Option Value
  | .object members => latest name members
  | _ => none

end Value

end Advisor.Json
