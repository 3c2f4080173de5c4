import Advisor.Binary64.Basic
import Mathlib.Algebra.Order.Field.Power
import Mathlib.Algebra.Order.Field.Rat
import Mathlib.Algebra.Order.Group.Abs
import Mathlib.Order.Monotone.Basic
import Mathlib.Tactic.Linarith
import Mathlib.Tactic.Ring
import Mathlib.Tactic.NormNum

/-!
# Values of doubles

The values of the magnitudes rise with them, so what is nearest to a rational can be told from the
two neighbours of a magnitude. Of two magnitudes that are equally near one is even, and that one is
what the rational rounds to; so it rounds to one magnitude only.
-/

namespace Advisor.Binary64

/-- The value of a magnitude. That of the infinite one is the power of two that comes next to the
largest finite value. -/
def valueOf (magnitude : Nat) : ℚ := significand magnitude * 2 ^ exponent magnitude

private theorem valueOf_of_lt {magnitude : Nat} (h : magnitude < 2 ^ 52) :
    valueOf magnitude = magnitude * 2 ^ (-1074 : Int) := by
  simp only [valueOf, significand, exponent, Nat.pow_eq, if_pos h]

private theorem valueOf_of_le {magnitude : Nat} (h : 2 ^ 52 ≤ magnitude) :
    valueOf magnitude = (2 ^ 52 + magnitude % 2 ^ 52 : Nat)
      * 2 ^ ((magnitude / 2 ^ 52 : Nat) - 1075 : Int) := by
  simp only [valueOf, significand, exponent, Nat.pow_eq, if_neg (Nat.not_lt.mpr h)]

/-- The value of a significand of at most 53 bits that is counted in last places from a power of
two, a carry into the next power included. -/
theorem valueOf_add {e m : Nat} (hm : m ≤ 2 ^ 53) (h : e = 0 ∨ 2 ^ 52 ≤ m) :
    valueOf (e * 2 ^ 52 + m) = m * 2 ^ (e - 1074 : Int) := by
  rcases Nat.lt_or_ge m (2 ^ 52) with hsmall | hlarge
  · obtain rfl : e = 0 := h.resolve_right (Nat.not_le.mpr hsmall)
    rw [Nat.zero_mul, Nat.zero_add, valueOf_of_lt hsmall]
    norm_num
  rw [valueOf_of_le (by omega)]
  rcases Nat.lt_or_eq_of_le hm with hbelow | rfl
  · have hmod : 2 ^ 52 + (e * 2 ^ 52 + m) % 2 ^ 52 = m := by omega
    have hdiv : ((e * 2 ^ 52 + m) / 2 ^ 52 : Nat) - 1075 = (e - 1074 : Int) := by omega
    rw [hmod, hdiv]
  · have hmod : (e * 2 ^ 52 + 2 ^ 53) % 2 ^ 52 = 0 := by omega
    have hdiv : ((e * 2 ^ 52 + 2 ^ 53) / 2 ^ 52 : Nat) - 1075 = (e - 1074 + 1 : Int) := by omega
    rw [hmod, hdiv, zpow_add_one₀ (by norm_num)]
    push_cast
    ring

private theorem exists_eq_add (magnitude : Nat) :
    ∃ e m, magnitude = e * 2 ^ 52 + m ∧ m < 2 ^ 53 ∧ (e = 0 ∨ 2 ^ 52 ≤ m) := by
  refine ⟨magnitude / 2 ^ 52 - 1, magnitude - (magnitude / 2 ^ 52 - 1) * 2 ^ 52, ?_, ?_, ?_⟩ <;> omega

theorem valueOf_strictMono : StrictMono valueOf := by
  apply strictMono_nat_of_lt_succ
  intro magnitude
  obtain ⟨e, m, rfl, hm, h⟩ := exists_eq_add magnitude
  rw [Nat.add_assoc, valueOf_add hm.le h, valueOf_add hm (by omega)]
  exact mul_lt_mul_of_pos_right (by norm_num) (zpow_pos (by norm_num) _)

theorem valueOf_zero : valueOf 0 = 0 := by
  rw [valueOf_of_lt (by norm_num), Nat.cast_zero, zero_mul]

theorem valueOf_nonneg (magnitude : Nat) : 0 ≤ valueOf magnitude :=
  valueOf_zero ▸ valueOf_strictMono.monotone (Nat.zero_le magnitude)

/-- The rational rounds to the magnitude: none is nearer, and if another one is as near, the
significand is even. -/
def Nearest (q : ℚ) (magnitude : Nat) : Prop :=
  magnitude ≤ infinite ∧ ∀ other ≤ infinite, other ≠ magnitude →
    |q - valueOf magnitude| < |q - valueOf other| ∨
      |q - valueOf magnitude| = |q - valueOf other| ∧ magnitude % 2 = 0

private theorem abs_sub_lt_of_add_lt {q a b : ℚ} (h : a < b) (hmiddle : a + b < 2 * q) :
    |q - b| < |q - a| := by
  rw [abs_of_pos (by linarith : 0 < q - a), abs_lt]
  constructor <;> linarith

private theorem abs_sub_lt_of_lt_add {q a b : ℚ} (h : a < b) (hmiddle : 2 * q < a + b) :
    |q - a| < |q - b| := by
  rw [abs_of_neg (by linarith : q - b < 0), abs_lt]
  constructor <;> linarith

private theorem abs_sub_eq_of_add_eq {q a b : ℚ} (hmiddle : a + b = 2 * q) : |q - a| = |q - b| := by
  rw [show q - b = -(q - a) by linarith, abs_neg]

/-- The rational lies between the middles to both neighbours of the magnitude, and in a middle only if
the magnitude is even. Beyond the infinite magnitude there are no neighbours. -/
structure Central (q : ℚ) (magnitude : Nat) : Prop where
  low : ∀ below, below + 1 = magnitude →
    valueOf below + valueOf magnitude < 2 * q ∨
      valueOf below + valueOf magnitude = 2 * q ∧ magnitude % 2 = 0
  high : magnitude < infinite →
    2 * q < valueOf magnitude + valueOf (magnitude + 1) ∨
      2 * q = valueOf magnitude + valueOf (magnitude + 1) ∧ magnitude % 2 = 0

/-- What lies between the middles to the neighbours is farther from all others. -/
theorem Central.nearest {q : ℚ} {magnitude : Nat} (h : Central q magnitude)
    (hfinite : magnitude ≤ infinite) : Nearest q magnitude := by
  apply And.intro hfinite
  intro other hfiniteOther hother
  rcases Nat.lt_or_gt_of_ne hother with hlt | hlt
  · obtain ⟨below, rfl⟩ : ∃ below, magnitude = below + 1 := ⟨magnitude - 1, by omega⟩
    have hnext := h.low below rfl
    rcases Nat.lt_or_eq_of_le (Nat.le_of_lt_succ hlt) with hfar | rfl
    · have hmono := valueOf_strictMono hfar
      left
      apply abs_sub_lt_of_add_lt (valueOf_strictMono hlt)
      rcases hnext with hmiddle | ⟨hmiddle, -⟩ <;> linarith
    · exact hnext.imp (abs_sub_lt_of_add_lt (valueOf_strictMono hlt))
        (And.imp_left fun hmiddle => (abs_sub_eq_of_add_eq hmiddle).symm)
  · have hnext := h.high (Nat.lt_of_lt_of_le hlt hfiniteOther)
    rcases Nat.lt_or_eq_of_le (Nat.succ_le_of_lt hlt) with hfar | rfl
    · have hmono := valueOf_strictMono hfar
      left
      apply abs_sub_lt_of_lt_add (valueOf_strictMono hlt)
      rcases hnext with hmiddle | ⟨hmiddle, -⟩ <;> linarith
    · exact hnext.imp (abs_sub_lt_of_lt_add (valueOf_strictMono hlt))
        (And.imp_left fun hmiddle => abs_sub_eq_of_add_eq hmiddle.symm)

theorem nearest_valueOf {magnitude : Nat} (h : magnitude ≤ infinite) :
    Nearest (valueOf magnitude) magnitude := by
  apply And.intro h
  intro other _ hother
  left
  rw [sub_self, abs_zero, abs_pos, sub_ne_zero]
  exact valueOf_strictMono.injective.ne hother.symm

/-- Two magnitudes that are equally near are even, so one between them would be nearer. -/
theorem Nearest.unique {q : ℚ} {magnitude magnitude' : Nat} (h : Nearest q magnitude)
    (h' : Nearest q magnitude') : magnitude = magnitude' := by
  by_contra hne
  wlog hlt : magnitude < magnitude' generalizing magnitude magnitude'
  · exact this h' h (Ne.symm hne) (by omega)
  obtain ⟨hdistance, heven, heven'⟩ : |q - valueOf magnitude| = |q - valueOf magnitude'|
      ∧ magnitude % 2 = 0 ∧ magnitude' % 2 = 0 := by
    rcases h.2 magnitude' h'.1 (Ne.symm hne) with hless | ⟨heq, heven⟩
    · rcases h'.2 magnitude h.1 hne with hless' | ⟨heq', -⟩ <;> linarith
    · rcases h'.2 magnitude h.1 hne with hless' | ⟨heq', heven'⟩
      · linarith
      · exact ⟨heq, heven, heven'⟩
  have hvalues := valueOf_strictMono (Nat.lt_succ_self magnitude)
  have hvalues' := valueOf_strictMono (show magnitude + 1 < magnitude' by omega)
  have hmiddle : valueOf magnitude + valueOf magnitude' = 2 * q := by
    rcases abs_eq_abs.mp hdistance with heq | heq <;> linarith
  have hnearer : |q - valueOf (magnitude + 1)| < |q - valueOf magnitude| :=
    abs_sub_lt_of_add_lt hvalues (by linarith)
  rcases h.2 (magnitude + 1) (by have := h'.1; omega) (by omega) with hless | ⟨heq, -⟩ <;> linarith

end Advisor.Binary64
