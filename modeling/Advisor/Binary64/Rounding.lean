import Advisor.Binary64.Basic

/-!
# Rounding to double precision

`nearest` takes an exact quotient to the magnitude nearest to it, a half going to the even
significand. Sums of powers of two below the least one are kept as they are, quotients beyond the
largest finite number become infinite. Products and quotients of magnitudes are the exact results,
rounded once.
-/

namespace Advisor.Binary64

/-- The quotient rounded to an integer; a half goes to the even neighbour. -/
def halfEven (num den : Nat) : Nat :=
  let q := num / den
  let r := num % den
  if 2 * r < den then q else if den < 2 * r then q + 1 else q + q % 2

/-- The largest `k` with `2 ^ k ≤ num / den`, for a positive quotient. -/
def floorLog2 (num den : Nat) : Int :=
  let k : Int := (num.log2 : Int) - den.log2
  if den * Nat.pow 2 k.toNat ≤ num * Nat.pow 2 (-k).toNat then k else k - 1

/-- The exponent of the last place of a double near the quotient. -/
def lastPlace (num den : Nat) : Int := max (floorLog2 num den - 52) (-1074)

/-- The magnitude nearest to `num / den`. Counted in last places from the least positive number,
the significand and the exponent field make up one natural, so a carry out of the significand
moves into the exponent by itself. -/
def nearest (num den : Nat) : Nat :=
  if num = 0 then 0 else
    let q := lastPlace num den
    let m := halfEven (num * Nat.pow 2 (-q).toNat) (den * Nat.pow 2 q.toNat)
    min ((q + 1074).toNat * Nat.pow 2 52 + m) infinite

/-- The product of two finite magnitudes. -/
def mul (a b : Nat) : Nat :=
  nearest ((ratio a).1 * (ratio b).1) ((ratio a).2 * (ratio b).2)

/-- The quotient of two finite magnitudes, the second positive. -/
def div (a b : Nat) : Nat :=
  nearest ((ratio a).1 * (ratio b).2) ((ratio a).2 * (ratio b).1)

/-- The magnitude nearest to the power of ten. -/
def powerOfTen (k : Nat) : Nat := nearest (Nat.pow 10 k) 1

/-- The double nearest to an integer. -/
def ofInt (i : Int) : Binary64 := ofMagnitude (decide (i < 0)) (nearest i.natAbs 1)

end Advisor.Binary64
