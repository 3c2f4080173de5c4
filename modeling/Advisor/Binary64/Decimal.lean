import Advisor.Binary64.Rounding

/-!
# Shortest decimals

`shortest` finds the decimal with the fewest digits that rounds back to a given magnitude. Among
decimals of that many digits it takes the nearest. The search goes through the grids of the powers
of ten from coarse to fine; the finest of them holds every double exactly, so it always ends with a
decimal that rounds back.
-/

namespace Advisor

/-- The number `digits * 10 ^ exponent`. -/
structure Decimal where
  digits : Nat
  exponent : Int
deriving DecidableEq, Repr

/-- Which of two equally near decimals is taken. -/
inductive Tie where
  | even
  | away
deriving DecidableEq, Repr

namespace Decimal

/-- The magnitude that the decimal rounds to. -/
def nearest (d : Decimal) : Nat :=
  Binary64.nearest (d.digits * Nat.pow 10 d.exponent.toNat) (Nat.pow 10 (-d.exponent).toNat)

/-- The multiple of `10 ^ e` that rounds to the magnitude, if there is one: of the two neighbours on
the grid the nearer. -/
def onGrid (tie : Tie) (magnitude : Nat) (e : Int) : Option Decimal :=
  let num := (Binary64.ratio magnitude).1 * Nat.pow 10 (-e).toNat
  let den := (Binary64.ratio magnitude).2 * Nat.pow 10 e.toNat
  let low : Decimal := ⟨num / den, e⟩
  let high : Decimal := ⟨num / den + 1, e⟩
  let rest := 2 * (num % den)
  let lowFirst := rest < den ∨ rest = den ∧ tie = .even ∧ low.digits % 2 = 0
  if low.nearest = magnitude ∧ (high.nearest ≠ magnitude ∨ lowFirst) then some low
  else if high.nearest = magnitude then some high
  else none

/-- The exact value, on the grid of `10 ^ (-1074)`. -/
def exact (magnitude : Nat) : Decimal :=
  let whole := Binary64.significand magnitude * Nat.pow 2 (Binary64.exponent magnitude + 1074).toNat
  ⟨whole * Nat.pow 5 1074, -1074⟩

/-- Searches the grids of `10 ^ (n - 1074)` and finer. -/
def search (tie : Tie) (magnitude : Nat) : Nat → Decimal
  | 0 => exact magnitude
  | n + 1 =>
    match onGrid tie magnitude ((n + 1 : Nat) - 1074) with
    | some d => d
    | none => search tie magnitude n

/-- An exponent `e` with `10 ^ e` above the value: the number of its binary digits times the
logarithm of two, taken a little too large. -/
def above (magnitude : Nat) : Int :=
  let k := (Binary64.significand magnitude).log2 + 1 + Binary64.exponent magnitude
  if 0 ≤ k then k * 30103 / 100000 + 1 else k * 30102 / 100000 + 1

/-- The decimal with the fewest digits that rounds to the finite, positive magnitude. -/
def shortest (tie : Tie) (magnitude : Nat) : Decimal :=
  search tie magnitude (above magnitude + 1074).toNat

/-- The digits without an exponent, with a point only where a fraction follows. -/
def positional (d : Decimal) : List Char :=
  let ds := Nat.toDigits 10 d.digits
  let shift := (-d.exponent).toNat
  if 0 ≤ d.exponent then ds ++ List.replicate d.exponent.toNat '0'
  else if shift < ds.length then ds.take (ds.length - shift) ++ '.' :: ds.drop (ds.length - shift)
  else '0' :: '.' :: (List.replicate (shift - ds.length) '0' ++ ds)

/-- The exponent of the first digit. -/
def leading (d : Decimal) : Int := d.exponent + ((Nat.toDigits 10 d.digits).length - 1 : Nat)

/-- One digit, the others behind a point, and the exponent of the first with its sign. -/
def scientific (d : Decimal) : List Char :=
  let mantissa := match Nat.toDigits 10 d.digits with
    | first :: second :: rest => first :: '.' :: second :: rest
    | ds => ds
  let sign := if d.leading < 0 then '-' else '+'
  mantissa ++ 'e' :: sign :: Nat.toDigits 10 d.leading.natAbs

end Decimal

end Advisor
