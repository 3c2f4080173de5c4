import Advisor.Proofs.Binary64.Value

/-!
# Doubles with their signs

A double is its sign and its magnitude. Doubles of the other sign are never nearer to a rational than
zero is, so to round with the sign is to round without it and to keep the sign.
-/

namespace Advisor

namespace Binary64

/-- The rational with a sign in front. -/
def signed (negative : Bool) (q : ℚ) : ℚ := if negative then -q else q

/-- The value of a double. That of an infinite one is the power of two that comes next to the largest
finite value. -/
def value (x : Binary64) : ℚ := signed x.negative (valueOf x.magnitude)

/-- The rational rounds to the double: no other value is as near, unless the double is the one of two
whose significand is even. -/
def RoundsTo (q : ℚ) (x : Binary64) : Prop :=
  ∀ y : Binary64, y.isNaN = false → y.value ≠ x.value →
    |q - x.value| < |q - y.value| ∨ |q - x.value| = |q - y.value| ∧ significand x.magnitude % 2 = 0

variable {x y : Binary64} {q : ℚ}

private theorem signed_injective (negative : Bool) : Function.Injective (signed negative) := by
  intro p q h
  cases negative
  · exact h
  · exact neg_injective h

private theorem abs_signed_sub (negative : Bool) (p q : ℚ) :
    |signed negative p - signed negative q| = |p - q| := by
  cases negative
  · rfl
  · change |-p - -q| = _
    rw [← abs_neg, neg_sub_neg, neg_sub]

private theorem abs_signed_sub_not (negative : Bool) {p q : ℚ} (hp : 0 ≤ p) (hq : 0 ≤ q) :
    |signed negative p - signed (!negative) q| = p + q := by
  cases negative
  · change |p - -q| = _
    rw [sub_neg_eq_add, abs_of_nonneg (add_nonneg hp hq)]
  · change |-p - q| = _
    rw [← neg_add', abs_neg, abs_of_nonneg (add_nonneg hp hq)]

theorem magnitude_le_infinite (h : x.isNaN = false) : x.magnitude ≤ infinite := by
  simpa [isNaN] using h

theorem isNaN_of_isFinite (h : x.isFinite = true) : x.isNaN = false := by
  simp only [isFinite, isNaN, decide_eq_true_eq, decide_eq_false_iff_not] at h ⊢
  omega

private theorem significand_mod_two (magnitude : Nat) :
    significand magnitude % 2 = magnitude % 2 := by
  simp only [significand, Nat.pow_eq]
  split <;> omega

theorem eq_of_magnitude_eq (hsign : x.negative = y.negative) (h : x.magnitude = y.magnitude) :
    x = y := by
  obtain ⟨bits⟩ := x
  obtain ⟨bits'⟩ := y
  have hlt := bits.toNat_lt
  have hlt' := bits'.toNat_lt
  simp only [negative, magnitude, Nat.pow_eq, decide_eq_decide] at hsign h
  rw [Binary64.mk.injEq, ← UInt64.toNat_inj]
  omega

private theorem toNat_ofMagnitude {negative : Bool} {magnitude : Nat} (h : magnitude ≤ infinite) :
    (ofMagnitude negative magnitude).bits.toNat
      = (if negative then 2 ^ 63 else 0) + magnitude := by
  have hlt : infinite < 2 ^ 63 := by decide
  rw [ofMagnitude, UInt64.toNat_ofNat', Nat.pow_eq]
  split <;> omega

private theorem negative_ofMagnitude {negative : Bool} {magnitude : Nat}
    (h : magnitude ≤ infinite) :
    (ofMagnitude negative magnitude).negative = negative := by
  have hlt : infinite < 2 ^ 63 := by decide
  rw [Binary64.negative, toNat_ofMagnitude h, Nat.pow_eq]
  cases negative
  · exact decide_eq_false (by simp only [Bool.false_eq_true, if_false]; omega)
  · exact decide_eq_true (Nat.le_add_right _ _)

private theorem magnitude_ofMagnitude {negative : Bool} {magnitude : Nat}
    (h : magnitude ≤ infinite) :
    (ofMagnitude negative magnitude).magnitude = magnitude := by
  have hlt : infinite < 2 ^ 63 := by decide
  rw [Binary64.magnitude, toNat_ofMagnitude h, Nat.pow_eq]
  split <;> omega

private theorem isNaN_ofMagnitude {negative : Bool} {magnitude : Nat} (h : magnitude ≤ infinite) :
    (ofMagnitude negative magnitude).isNaN = false := by
  rw [isNaN, magnitude_ofMagnitude h, decide_eq_false_iff_not]
  omega

/-- What is on the other side of zero is no nearer than zero is. -/
theorem Nearest.of_opposite {magnitude : Nat} {v : ℚ} (h : Nearest q magnitude) (hq : 0 ≤ q)
    (hv : 0 ≤ v) (hne : magnitude ≠ 0 ∨ v ≠ 0) :
    |q - valueOf magnitude| < q + v ∨ |q - valueOf magnitude| = q + v ∧ magnitude % 2 = 0 := by
  by_cases hzero : magnitude = 0
  · have hpos : 0 < v := lt_of_le_of_ne hv (hne.resolve_left (absurd hzero)).symm
    left
    rw [hzero, valueOf_zero, sub_zero, abs_of_nonneg hq]
    exact lt_add_of_pos_right q hpos
  · have hdistance := h.2 0 (Nat.zero_le _) (Ne.symm hzero)
    rw [valueOf_zero, sub_zero, abs_of_nonneg hq] at hdistance
    rcases eq_or_lt_of_le hv with heq | hpos
    · rwa [← heq, add_zero]
    · left
      rcases hdistance with hless | ⟨heq, -⟩ <;> linarith

/-- With the sign of the double, a rational rounds to it if it rounds to its magnitude. -/
theorem roundsTo_signed_iff (hx : x.isNaN = false) (hq : 0 ≤ q) :
    RoundsTo (signed x.negative q) x ↔ Nearest q x.magnitude := by
  constructor
  · intro h
    constructor
    · exact magnitude_le_infinite hx
    · intro other hother hne
      have hvalue : (ofMagnitude x.negative other).value = signed x.negative (valueOf other) := by
        rw [value, negative_ofMagnitude hother, magnitude_ofMagnitude hother]
      have hdistance := h (ofMagnitude x.negative other) (isNaN_ofMagnitude hother) fun heq =>
        hne (valueOf_strictMono.injective (signed_injective _ (hvalue.symm.trans heq)))
      rwa [hvalue, value, abs_signed_sub, abs_signed_sub, significand_mod_two] at hdistance
  · intro h y hy hne
    rw [significand_mod_two]
    by_cases hsign : y.negative = x.negative
    · have hother : y.magnitude ≠ x.magnitude := fun heq =>
        hne (by rw [value, value, hsign, heq])
      rw [value, value, hsign, abs_signed_sub, abs_signed_sub]
      exact h.2 y.magnitude (magnitude_le_infinite hy) hother
    · have hvalue : y.value = signed (!x.negative) (valueOf y.magnitude) := by
        rw [value, Bool.eq_not.mpr hsign]
      have hnonneg := valueOf_nonneg y.magnitude
      rw [hvalue, value, abs_signed_sub, abs_signed_sub_not _ hq hnonneg]
      apply h.of_opposite hq hnonneg
      by_contra hboth
      simp only [not_or, not_not] at hboth
      apply hne
      rw [hvalue, value, hboth.1, hboth.2, valueOf_zero]
      cases x.negative <;> rfl

end Binary64

end Advisor
