import Mathlib.Algebra.Order.Field.Rat
import Mathlib.Data.List.TakeWhile
import Mathlib.Tactic.NormNum

/-!
# Numerals without an exponent

A numeral is an integer in decimal digits, with a sign in front if it is negative and perhaps a point
and more digits behind. It can be told from its text what its parts are, and so what it denotes.
-/

namespace Advisor.Text

structure Numeral where
  negative : Bool
  whole : List Char
  /-- The digits behind the point; there is no point if there are none. -/
  fraction : List Char
  isDigit_of_mem : ∀ c ∈ whole ++ fraction, c.isDigit = true
  /-- Zero stands in front of other digits only where they are behind the point. -/
  first : whole = ['0'] ∨ ∃ d more, whole = d :: more ∧ d ≠ '0'

namespace Numeral

/-- The point and the digits behind it. -/
def decimals (n : Numeral) : List Char := if n.fraction = [] then [] else '.' :: n.fraction

def text (n : Numeral) : List Char :=
  (if n.negative then ['-'] else []) ++ n.whole ++ n.decimals

/-- What the digits denote. -/
def magnitude (n : Numeral) : ℚ :=
  Nat.ofDigitChars 10 (n.whole ++ n.fraction) 0 / 10 ^ n.fraction.length

def value (n : Numeral) : ℚ := if n.negative then -n.magnitude else n.magnitude

theorem magnitude_nonneg (n : Numeral) : 0 ≤ n.magnitude :=
  div_nonneg (Nat.cast_nonneg _) (pow_nonneg (by norm_num) _)

private theorem takeWhile_digits (n : Numeral) :
    (n.whole ++ n.decimals).takeWhile Char.isDigit = n.whole := by
  have hwhole : ∀ c ∈ n.whole, c.isDigit = true := fun c hc =>
    n.isDigit_of_mem c (List.mem_append_left _ hc)
  rw [List.takeWhile_append_of_pos hwhole, decimals]
  split <;> simp

private theorem dropWhile_digits (n : Numeral) :
    (n.whole ++ n.decimals).dropWhile Char.isDigit = n.decimals := by
  have hwhole : ∀ c ∈ n.whole, c.isDigit = true := fun c hc =>
    n.isDigit_of_mem c (List.mem_append_left _ hc)
  rw [List.dropWhile_append_of_pos hwhole, decimals]
  split <;> simp

private theorem unsigned_ne_sign (n : Numeral) (more : List Char) :
    n.whole ++ n.decimals ≠ '-' :: more := by
  intro heq
  have hwhole : n.whole = [] := by
    rw [← n.takeWhile_digits, heq]
    rfl
  rcases n.first with hzero | ⟨d, more, hcons, -⟩ <;> simp_all

private theorem decimals_injective {n n' : Numeral} (h : n.decimals = n'.decimals) :
    n.fraction = n'.fraction := by
  simp only [decimals] at h
  split at h <;> split at h <;> simp_all

theorem text_injective : Function.Injective text := by
  intro n n' h
  simp only [text, List.append_assoc] at h
  obtain ⟨hsign, hunsigned⟩ : n.negative = n'.negative
      ∧ n.whole ++ n.decimals = n'.whole ++ n'.decimals := by
    cases hn : n.negative <;> cases hn' : n'.negative <;> rw [hn, hn'] at h
    · exact ⟨rfl, h⟩
    · exact absurd h (n.unsigned_ne_sign _)
    · exact absurd h.symm (n'.unsigned_ne_sign _)
    · exact ⟨rfl, List.tail_eq_of_cons_eq h⟩
  have hwhole : n.whole = n'.whole := by
    rw [← n.takeWhile_digits, hunsigned, n'.takeWhile_digits]
  have hfraction : n.fraction = n'.fraction := by
    apply decimals_injective
    rw [← n.dropWhile_digits, hunsigned, n'.dropWhile_digits]
  obtain ⟨negative, whole, fraction, hdigits, hfirst⟩ := n
  cases n'
  simp_all

end Numeral

end Advisor.Text
