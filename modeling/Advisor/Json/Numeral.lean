import Advisor.Binary64.Rounding
import Advisor.Json.Value

/-!
# Numerals

A numeral is scanned into its parts, and a rule takes the parts to a number. Integers that fit 64
bits stay exact. All others go through a significand of 64 bits, one rounding to a double and then
multiplications or divisions by powers of ten, each of which rounds; so the result is not always the
nearest double to what is written.
-/

namespace Advisor.Json

/-- The parts of a numeral as written, digits from left to right. -/
structure Numeral where
  negative : Bool
  whole : List Nat
  /-- The digits behind the point, if there is one. -/
  fraction : Option (List Nat)
  /-- Whether the exponent is negative, and its digits, if there is one. -/
  exponent : Option (Bool × List Nat)
deriving DecidableEq, Repr

namespace Numeral

/-- The value of a digit sequence. -/
def natural (digits : List Nat) : Nat := digits.foldl (fun n d => 10 * n + d) 0

/-- The leading digits and what follows them. -/
def scanDigits (s : List Char) : List Nat × List Char :=
  ((s.takeWhile Char.isDigit).map fun c => c.toNat - '0'.toNat, s.dropWhile Char.isDigit)

/-- The digits before the point: one at least, and no zero in front of others. -/
def scanWhole (s : List Char) : Option (List Nat × List Char) :=
  match scanDigits s with
  | ([], _) => none
  | (0 :: _ :: _, _) => none
  | found => some found

/-- The point and the digits behind it, if the text goes on with a point. -/
def scanFraction : List Char → Option (Option (List Nat) × List Char)
  | '.' :: s =>
    match scanDigits s with
    | ([], _) => none
    | (ds, rest) => some (some ds, rest)
  | s => some (none, s)

/-- An optional sign and digits. -/
def scanSigned (s : List Char) : Option (Option (Bool × List Nat) × List Char) :=
  let (negative, s) := match s with
    | '-' :: s => (true, s)
    | '+' :: s => (false, s)
    | s => (false, s)
  match scanDigits s with
  | ([], _) => none
  | (ds, rest) => some (some (negative, ds), rest)

/-- The exponent, if the text goes on with one. -/
def scanExponent : List Char → Option (Option (Bool × List Nat) × List Char)
  | 'e' :: s => scanSigned s
  | 'E' :: s => scanSigned s
  | s => some (none, s)

/-- The numeral at the front of the text, and what follows it. -/
def scan (s : List Char) : Option (Numeral × List Char) := do
  let (negative, s) := match s with
    | '-' :: s => (true, s)
    | s => (false, s)
  let (whole, s) ← scanWhole s
  let (fraction, s) ← scanFraction s
  let (exponent, s) ← scanExponent s
  return (⟨negative, whole, fraction, exponent⟩, s)

/-- Appends integer digits to the significand while it fits 64 bits; counts those from the first
that does not. -/
def takeWhole (significand : Nat) : List Nat → Nat × Nat
  | [] => (significand, 0)
  | d :: ds =>
    if 10 * significand + d < Nat.pow 2 64 then takeWhole (10 * significand + d) ds
    else (significand, ds.length + 1)

/-- Appends fraction digits to the significand while it fits 64 bits; counts those taken. -/
def takeFraction (significand : Nat) : List Nat → Nat × Nat
  | [] => (significand, 0)
  | d :: ds =>
    if 10 * significand + d < Nat.pow 2 64 then
      let (total, taken) := takeFraction (10 * significand + d) ds
      (total, taken + 1)
    else (significand, 0)

/-- Divides by `10 ^ 308` up to so many times, and not again once nothing is left. -/
def descend (magnitude : Nat) : Nat → Nat
  | 0 => magnitude
  | n + 1 =>
    if magnitude = 0 then 0 else descend (Binary64.div magnitude (Binary64.powerOfTen 308)) n

/-- The significand rounded to a double and scaled by the power of ten, in steps of at most
`10 ^ 308`. There is no result where it would be infinite. -/
def scale (significand : Nat) (exponent : Int) : Option Nat :=
  let start := Binary64.nearest significand 1
  if exponent < 0 then
    let steps := (exponent.natAbs - 1) / 308
    let rest := exponent.natAbs - 308 * steps
    some (Binary64.div (descend start steps) (Binary64.powerOfTen rest))
  else if exponent ≤ 308 then
    let scaled := Binary64.mul start (Binary64.powerOfTen exponent.toNat)
    if scaled = Binary64.infinite then none else some scaled
  else if significand = 0 then some 0
  else none

/-- The exponent as written. -/
def writtenExponent (n : Numeral) : Int :=
  match n.exponent with
  | none => 0
  | some (true, ds) => -(natural ds : Int)
  | some (false, ds) => natural ds

/-- The numeral as a double, unless it is too large. -/
def real? (n : Numeral) : Option Binary64 :=
  let (significand, dropped) := takeWhole 0 n.whole
  let (significand, taken) := takeFraction significand (n.fraction.getD [])
  let exponent := (dropped : Int) - taken + n.writtenExponent
  (scale significand exponent).map (Binary64.ofMagnitude n.negative)

/-- Whether the numeral has neither point nor exponent. -/
def isIntegral (n : Numeral) : Bool := n.fraction.isNone && n.exponent.isNone

/-- The number that is written, unless it is too large. A negative zero is no integer. -/
def number? (n : Numeral) : Option Number :=
  let magnitude := natural n.whole
  if n.isIntegral && !n.negative && decide (magnitude < Nat.pow 2 64) then some (.integer magnitude)
  else if n.isIntegral && n.negative && decide (0 < magnitude ∧ magnitude ≤ Nat.pow 2 63) then
    some (.integer (-magnitude))
  else n.real?.map .real

end Numeral

end Advisor.Json
