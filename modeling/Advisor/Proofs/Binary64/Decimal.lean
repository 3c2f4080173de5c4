import Advisor.Binary64.Decimal
import Advisor.Proofs.Binary64.Rounding
import Advisor.Proofs.Text.Digits
import Advisor.Proofs.Text.Numeral
import Mathlib.Tactic.FieldSimp

/-!
# Shortest decimals read back

Whichever decimal the search for the shortest one ends with, its value rounds to the magnitude that
was searched for: a decimal on a coarser grid is taken only if it does, and on the finest grid the
value itself is found. Written without an exponent, the decimal keeps its value.
-/

namespace Advisor

open Binary64

namespace Decimal

def value (d : Decimal) : ℚ := d.digits * 10 ^ d.exponent

private theorem value_eq_div (d : Decimal) : d.value
    = (d.digits * Nat.pow 10 d.exponent.toNat : Nat) / (Nat.pow 10 (-d.exponent).toNat : Nat) := by
  rw [value, zpow_eq_div]
  push_cast [Nat.pow_eq]
  rw [mul_div_assoc]

private theorem nearest_value (d : Decimal) : Nearest d.value d.nearest := by
  rw [value_eq_div]
  exact nearest_nearest _ (Nat.pow_pos (by decide))

variable {tie : Tie} {magnitude : Nat}

private theorem nearest_of_onGrid {e : Int} {d : Decimal} (h : onGrid tie magnitude e = some d) :
    Nearest d.value magnitude := by
  suffices hnearest : d.nearest = magnitude from hnearest ▸ d.nearest_value
  simp only [onGrid] at h
  split at h
  · next hlow => exact Option.some.inj h ▸ hlow.1
  split at h
  · next hhigh => exact Option.some.inj h ▸ hhigh
  · simp at h

private theorem mul_two_zpow_eq (s n : Nat) {k : Int} (hk : 0 ≤ k + n) :
    (s * 2 ^ (k + n).toNat * 5 ^ n : ℚ) * 10 ^ (-n : Int) = s * 2 ^ k := by
  have htwo : (2 : ℚ) ^ (k + n).toNat = 2 ^ k * 2 ^ n := by
    rw [← zpow_natCast, Int.toNat_of_nonneg hk, zpow_add₀ two_ne_zero, zpow_natCast]
  have hten : (10 : ℚ) ^ (-n : Int) = (2 ^ n * 5 ^ n)⁻¹ := by
    rw [zpow_neg, zpow_natCast, ← mul_pow]
    norm_num
  rw [htwo, hten]
  field_simp

private theorem value_exact (magnitude : Nat) : (exact magnitude).value = valueOf magnitude := by
  have hexponent : 0 ≤ Binary64.exponent magnitude + (1074 : Nat) := by
    simp only [Binary64.exponent, Nat.pow_eq]
    split <;> omega
  rw [value, exact, valueOf, ← mul_two_zpow_eq _ 1074 hexponent]
  simp only [Nat.pow_eq, Nat.cast_mul, Nat.cast_pow, Nat.cast_ofNat]

private theorem nearest_search (hfinite : magnitude ≤ infinite) (n : Nat) :
    Nearest (search tie magnitude n).value magnitude := by
  induction n with
  | zero =>
    rw [search, value_exact]
    exact nearest_valueOf hfinite
  | succ n ih =>
    rw [search]
    split
    · next hgrid => exact nearest_of_onGrid hgrid
    · exact ih

theorem nearest_shortest (tie : Tie) (hfinite : magnitude ≤ infinite) :
    Nearest (shortest tie magnitude).value magnitude := nearest_search hfinite _

theorem digits_pos_of_nearest {d : Decimal} (h : Nearest d.value magnitude) (hpos : 0 < magnitude) :
    0 < d.digits := by
  apply Nat.pos_of_ne_zero
  intro hzero
  apply hpos.ne'
  have hvalue : d.value = valueOf 0 := by
    rw [value, hzero, valueOf_zero, Nat.cast_zero, zero_mul]
  exact (hvalue ▸ h).unique (nearest_valueOf (Nat.zero_le _))

section Positional

/-- The digits in front of the point and those behind it, if there are any, denote the decimal. -/
structure Parts (d : Decimal) (whole fraction : List Char) : Prop where
  isDigit_of_mem : ∀ c ∈ whole ++ fraction, c.isDigit = true
  first : whole = ['0'] ∨ ∃ digit more, whole = digit :: more ∧ digit ≠ '0'
  value : (Nat.ofDigitChars 10 (whole ++ fraction) 0 / 10 ^ fraction.length : ℚ) = d.value

variable {d : Decimal}

private theorem isDigit_of_mem_digits : ∀ c ∈ Nat.toDigits 10 d.digits, c.isDigit = true :=
  fun _ => Text.isDigit_of_mem_toDigits

private theorem isDigit_of_mem_zeros (k : Nat) :
    ∀ c ∈ List.replicate k '0', c.isDigit = true := fun _ hc =>
  List.eq_of_mem_replicate hc ▸ rfl

private theorem parts_integer (hpos : 0 < d.digits) (h : 0 ≤ d.exponent) :
    d.Parts (Nat.toDigits 10 d.digits ++ List.replicate d.exponent.toNat '0') [] := by
  obtain ⟨first, more, hdigits, hfirst⟩ := Text.exists_toDigits_cons hpos
  constructor
  · rw [List.append_nil]
    exact List.forall_mem_append.mpr ⟨isDigit_of_mem_digits, isDigit_of_mem_zeros _⟩
  · exact .inr ⟨first, more ++ List.replicate d.exponent.toNat '0', by rw [hdigits]; rfl, hfirst⟩
  · have hplaces : (-d.exponent).toNat = 0 := by omega
    rw [List.append_nil, Nat.ofDigitChars_append, Nat.ofDigitChars_ten_toDigits,
      Nat.ofDigitChars_replicate_zero, value_eq_div, hplaces, Nat.mul_comm]
    simp

private theorem parts_inside (hpos : 0 < d.digits) {places : Nat} (h : d.exponent = -places)
    (hplaces : places < (Nat.toDigits 10 d.digits).length) :
    d.Parts ((Nat.toDigits 10 d.digits).take ((Nat.toDigits 10 d.digits).length - places))
      ((Nat.toDigits 10 d.digits).drop ((Nat.toDigits 10 d.digits).length - places)) := by
  obtain ⟨first, more, hdigits, hfirst⟩ := Text.exists_toDigits_cons hpos
  obtain ⟨k, hk⟩ : ∃ k, (Nat.toDigits 10 d.digits).length - places = k + 1 :=
    ⟨(Nat.toDigits 10 d.digits).length - places - 1, by omega⟩
  constructor
  · rw [List.take_append_drop]
    exact isDigit_of_mem_digits
  · exact .inr ⟨first, more.take k, by rw [hk, hdigits, List.take_succ_cons], hfirst⟩
  · have hlength : (Nat.toDigits 10 d.digits).length - ((Nat.toDigits 10 d.digits).length - places)
        = places := by omega
    rw [List.take_append_drop, Nat.ofDigitChars_ten_toDigits, List.length_drop, hlength,
      value_eq_div, h]
    simp

private theorem parts_below {places : Nat} (h : d.exponent = -places)
    (hplaces : (Nat.toDigits 10 d.digits).length ≤ places) : d.Parts ['0']
      (List.replicate (places - (Nat.toDigits 10 d.digits).length) '0' ++ Nat.toDigits 10 d.digits) := by
  constructor
  · rw [List.singleton_append, List.forall_mem_cons, List.forall_mem_append]
    exact ⟨rfl, isDigit_of_mem_zeros _, isDigit_of_mem_digits⟩
  · exact .inl rfl
  · have hread (k : Nat) : Nat.ofDigitChars 10 (['0'] ++ (List.replicate k '0' ++
        Nat.toDigits 10 d.digits)) 0 = d.digits := by
      rw [List.singleton_append, Nat.ofDigitChars_cons, Nat.ofDigitChars_append,
        Nat.ofDigitChars_replicate_zero]
      exact Nat.ofDigitChars_ten_toDigits
    have hlength : places - (Nat.toDigits 10 d.digits).length + (Nat.toDigits 10 d.digits).length
        = places := by omega
    rw [hread, List.length_append, List.length_replicate, hlength, value_eq_div, h]
    simp

/-- Written without an exponent, a decimal keeps its value. -/
theorem exists_parts (hpos : 0 < d.digits) : ∃ whole fraction, d.Parts whole fraction
    ∧ d.positional = whole ++ (if fraction = [] then [] else '.' :: fraction) := by
  rw [positional]
  split
  · next h => exact ⟨_, [], parts_integer hpos h, by simp⟩
  next hnegative =>
  have hplaces : d.exponent = -((-d.exponent).toNat : Int) := by omega
  split
  · next h =>
    refine ⟨_, _, parts_inside hpos hplaces h, ?_⟩
    rw [if_neg]
    rw [List.drop_eq_nil_iff]
    omega
  · next h =>
    refine ⟨_, _, parts_below hplaces (Nat.le_of_not_lt h), ?_⟩
    rw [if_neg (by simp [Nat.toDigits_ne_nil])]
    rfl

end Positional

end Decimal

end Advisor
