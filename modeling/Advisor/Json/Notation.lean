import Advisor.Binary64.Decimal
import Advisor.Json.Value

/-!
# The notation of numbers

Doubles are written with the fewest digits that read back, a tie going to the even digit. Between
`10 ^ (-5)` and `10 ^ 16` they are positional and always have a point; beyond, the exponent is
written with its sign.
-/

namespace Advisor.Json

/-- The notation of a finite magnitude. -/
def magnitudeNotation (magnitude : Nat) : List Char :=
  if magnitude = 0 then ['0', '.', '0'] else
    let d := Decimal.shortest .even magnitude
    if -5 ≤ d.leading ∧ d.leading < 16 then
      if d.exponent < 0 then d.positional else d.positional ++ ['.', '0']
    else d.scientific

/-- The notation of a finite double. -/
def realNotation (x : Binary64) : List Char :=
  if x.negative then '-' :: magnitudeNotation x.magnitude else magnitudeNotation x.magnitude

def integerNotation (i : Int) : List Char :=
  if i < 0 then '-' :: Nat.toDigits 10 i.natAbs else Nat.toDigits 10 i.natAbs

namespace Number

def written : Number → List Char
  | .integer i => integerNotation i
  | .real x => realNotation x

end Number

end Advisor.Json
