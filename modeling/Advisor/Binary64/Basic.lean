/-!
# Double-precision numbers

A number of a script is kept as its 64 bits: the two zeros stay apart, equality is decidable, and
every operation on it is exact arithmetic on naturals followed by one rounding.
-/

namespace Advisor

/-- A number in the 64-bit binary floating-point format. -/
structure Binary64 where
  bits : UInt64
deriving DecidableEq, Repr, Inhabited

namespace Binary64

/-- The sign bit. -/
def negative (x : Binary64) : Bool := decide (Nat.pow 2 63 ≤ x.bits.toNat)

/-- The bits below the sign. Read as naturals they are ordered as the absolute values are. -/
def magnitude (x : Binary64) : Nat := x.bits.toNat % Nat.pow 2 63

/-- The magnitude of the infinities; finite magnitudes lie below it, those of NaN above. -/
def infinite : Nat := 2047 * Nat.pow 2 52

def isFinite (x : Binary64) : Bool := decide (x.magnitude < infinite)

def isNaN (x : Binary64) : Bool := decide (infinite < x.magnitude)

/-- The number with the given sign and magnitude. -/
def ofMagnitude (negative : Bool) (magnitude : Nat) : Binary64 :=
  ⟨UInt64.ofNat (if negative then Nat.pow 2 63 + magnitude else magnitude)⟩

/-- The integer `m` in `m * 2 ^ q`, the value of a finite magnitude. -/
def significand (magnitude : Nat) : Nat :=
  if magnitude < Nat.pow 2 52 then magnitude else Nat.pow 2 52 + magnitude % Nat.pow 2 52

/-- The exponent `q` in `m * 2 ^ q`, the value of a finite magnitude. -/
def exponent (magnitude : Nat) : Int :=
  if magnitude < Nat.pow 2 52 then -1074 else (magnitude / Nat.pow 2 52 : Nat) - 1075

/-- Numerator and denominator of the value of a finite magnitude. -/
def ratio (magnitude : Nat) : Nat × Nat :=
  (significand magnitude * Nat.pow 2 (exponent magnitude).toNat,
    Nat.pow 2 (-exponent magnitude).toNat)

end Binary64

end Advisor
