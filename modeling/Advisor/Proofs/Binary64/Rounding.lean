import Advisor.Binary64.Rounding
import Advisor.Proofs.Binary64.Value
import Mathlib.Tactic.LinearCombination

/-!
# Rounding goes to the nearest

The significand is the quotient in last places, rounded to an integer. The last place is the right
one, so the result lies between the middles to its neighbours, also where it is carried into the next
power of two and where it is cut off at the infinite magnitude.
-/

namespace Advisor.Binary64

theorem zpow_eq_div (b : ℚ) (k : Int) : b ^ k = b ^ k.toNat / b ^ (-k).toNat := by
  obtain ⟨n, rfl | rfl⟩ := k.eq_nat_or_neg
  · simp
  · simp

private theorem div_zpow_two (num den : Nat) (k : Int) : (num / den : ℚ) / 2 ^ k
    = (num * Nat.pow 2 (-k).toNat : Nat) / (den * Nat.pow 2 k.toNat : Nat) := by
  rw [zpow_eq_div]
  push_cast [Nat.pow_eq]
  rw [div_div_eq_mul_div, div_mul_eq_mul_div, div_div]

/-- The integer is nearest to the rational, and in the middle between two integers it is even. -/
structure Rounded (x : ℚ) (m : Nat) : Prop where
  low : 2 * m - 1 < 2 * x ∨ 2 * m - 1 = 2 * x ∧ m % 2 = 0
  high : 2 * x < 2 * m + 1 ∨ 2 * x = 2 * m + 1 ∧ m % 2 = 0

private theorem rounded_of_nat {num den m : Nat} (hden : 0 < den)
    (hlow : 2 * (m * den) < 2 * num + den ∨ 2 * (m * den) = 2 * num + den ∧ m % 2 = 0)
    (hhigh : 2 * num < 2 * (m * den) + den ∨ 2 * num = 2 * (m * den) + den ∧ m % 2 = 0) :
    Rounded (num / den) m := by
  have hpos : (0 : ℚ) < den := by exact_mod_cast hden
  have hx : (num / den : ℚ) * den = num := div_mul_cancel₀ _ hpos.ne'
  constructor
  · refine hlow.imp (fun hlt => ?_) (And.imp_left fun heq => ?_)
    · have hcast : (2 * (m * den) : ℚ) < 2 * num + den := by exact_mod_cast hlt
      exact lt_of_mul_lt_mul_right (by linarith) hpos.le
    · have hcast : (2 * (m * den) : ℚ) = 2 * num + den := by exact_mod_cast heq
      exact mul_right_cancel₀ hpos.ne' (by linarith)
  · refine hhigh.imp (fun hlt => ?_) (And.imp_left fun heq => ?_)
    · have hcast : (2 * num : ℚ) < 2 * (m * den) + den := by exact_mod_cast hlt
      exact lt_of_mul_lt_mul_right (by linarith) hpos.le
    · have hcast : (2 * num : ℚ) = 2 * (m * den) + den := by exact_mod_cast heq
      exact mul_right_cancel₀ hpos.ne' (by linarith)

private theorem rounded_halfEven (num : Nat) {den : Nat} (hden : 0 < den) :
    Rounded (num / den : ℚ) (halfEven num den) := by
  have hsplit := Nat.div_add_mod num den
  have hrest := Nat.mod_lt num hden
  have hup : (num / den + 1) * den = num / den * den + den := Nat.succ_mul _ _
  rw [Nat.mul_comm] at hsplit
  rw [halfEven]
  split
  · exact rounded_of_nat hden (by omega) (by omega)
  split
  · exact rounded_of_nat hden (by omega) (by omega)
  · rcases Nat.mod_two_eq_zero_or_one (num / den) with heven | hodd
    · rw [heven, Nat.add_zero]
      exact rounded_of_nat hden (by omega) (by omega)
    · rw [hodd]
      exact rounded_of_nat hden (by omega) (by omega)

private theorem two_zpow_le_div_iff (num : Nat) {den : Nat} (hden : 0 < den) (k : Int) :
    (2 : ℚ) ^ k ≤ num / den ↔ den * Nat.pow 2 k.toNat ≤ num * Nat.pow 2 (-k).toNat := by
  have hscaled : (0 : ℚ) < (den * Nat.pow 2 k.toNat : Nat) := by
    exact_mod_cast Nat.mul_pos hden (Nat.two_pow_pos _)
  rw [← one_le_div₀ (zpow_pos two_pos k), div_zpow_two, one_le_div₀ hscaled, Nat.cast_le]

/-- The estimate from the lengths of numerator and denominator is at most one too large. -/
theorem floorLog2_spec {num den : Nat} (hnum : 0 < num) (hden : 0 < den) :
    (2 : ℚ) ^ floorLog2 num den ≤ num / den ∧ (num / den : ℚ) < 2 ^ (floorLog2 num den + 1) := by
  have hpos : (0 : ℚ) < den := by exact_mod_cast hden
  have hnumLow : (2 : ℚ) ^ (num.log2 : Int) ≤ num := by
    exact_mod_cast Nat.log2_self_le hnum.ne'
  have hnumHigh : (num : ℚ) < 2 ^ (num.log2 + 1 : Int) := by
    exact_mod_cast Nat.lt_log2_self
  have hdenLow : (2 : ℚ) ^ (den.log2 : Int) ≤ den := by
    exact_mod_cast Nat.log2_self_le hden.ne'
  have hdenHigh : (den : ℚ) < 2 ^ (den.log2 + 1 : Int) := by
    exact_mod_cast Nat.lt_log2_self
  have hlow : (2 : ℚ) ^ (num.log2 - den.log2 - 1 : Int) ≤ num / den := by
    rw [sub_sub, zpow_sub₀ two_ne_zero]
    exact div_le_div₀ (by positivity) hnumLow hpos hdenHigh.le
  have hhigh : (num / den : ℚ) < 2 ^ (num.log2 - den.log2 + 1 : Int) := by
    rw [sub_add_eq_add_sub, zpow_sub₀ two_ne_zero]
    exact div_lt_div₀ hnumHigh hdenLow (zpow_pos two_pos _).le (zpow_pos two_pos _)
  simp only [floorLog2, ← two_zpow_le_div_iff num hden]
  split
  · next h => exact ⟨h, hhigh⟩
  · next h => exact ⟨hlow, by rwa [sub_add_cancel, ← not_le]⟩

private theorem Rounded.le_of_lt {x : ℚ} {m n : Nat} (h : Rounded x m) (hx : x < n) : m ≤ n := by
  by_contra hlarge
  have hcast : (n + 1 : ℚ) ≤ m := by exact_mod_cast Nat.lt_of_not_le hlarge
  rcases h.low with hlow | ⟨hlow, -⟩ <;> linarith

private theorem Rounded.le_of_le {x : ℚ} {m n : Nat} (h : Rounded x m) (hx : n ≤ x) : n ≤ m := by
  by_contra hsmall
  have hcast : (m + 1 : ℚ) ≤ n := by exact_mod_cast Nat.lt_of_not_le hsmall
  rcases h.high with hhigh | ⟨hhigh, -⟩ <;> linarith

/-- A quotient in last places, from below a power of two up to the next one, is rounded to a
magnitude that has it between the middles to its neighbours. -/
theorem Rounded.central {x : ℚ} {e m : Nat} (h : Rounded x m) (hbelow : x < 2 ^ 53)
    (habove : e = 0 ∨ 2 ^ 52 ≤ x) : Central (x * 2 ^ (e - 1074 : Int)) (e * 2 ^ 52 + m) := by
  have hm : m ≤ 2 ^ 53 := h.le_of_lt (by exact_mod_cast hbelow)
  have hm' : e = 0 ∨ 2 ^ 52 ≤ m := habove.imp_right fun hx => h.le_of_le (by exact_mod_cast hx)
  have hvalue := valueOf_add hm hm'
  have hunit : (0 : ℚ) < 2 ^ (e - 1074 : Int) := zpow_pos two_pos _
  have hparity (heven : m % 2 = 0) : (e * 2 ^ 52 + m) % 2 = 0 := by omega
  generalize hplace : (2 : ℚ) ^ (e - 1074 : Int) = unit at hunit hvalue ⊢
  constructor
  · intro below hnext
    by_cases hsame : e = 0 ∨ 2 ^ 52 < m
    · obtain ⟨k, rfl⟩ : ∃ k, m = k + 1 := ⟨m - 1, by omega⟩
      obtain rfl : below = e * 2 ^ 52 + k := by omega
      have hvalue' := valueOf_add (e := e) (m := k) (by omega) (by omega)
      rw [hplace] at hvalue'
      rw [hvalue, hvalue']
      have hlow := h.low
      push_cast at hlow ⊢
      refine hlow.imp (fun hlt => ?_) (And.imp (fun heq => ?_) hparity)
      · nlinarith
      · linear_combination unit * heq
    · have hx : (m : ℚ) ≤ x := by
        rw [show m = 2 ^ 52 by omega, Nat.cast_pow, Nat.cast_ofNat]
        exact habove.resolve_left fun hzero => hsame (.inl hzero)
      have hmono := valueOf_strictMono (show below < e * 2 ^ 52 + m by omega)
      rw [hvalue] at hmono ⊢
      exact .inl (by nlinarith)
  · intro _
    rcases Nat.lt_or_eq_of_le hm with hlt | heq
    · have hvalue' := valueOf_add (e := e) (m := m + 1) (by omega) (by omega)
      rw [hplace, ← Nat.add_assoc] at hvalue'
      rw [hvalue, hvalue']
      push_cast
      refine h.high.imp (fun hlt => ?_) (And.imp (fun heq => ?_) hparity)
      · nlinarith
      · linear_combination unit * heq
    · have hx : x < m := by
        rw [heq, Nat.cast_pow, Nat.cast_ofNat]
        exact hbelow
      have hmono := valueOf_strictMono (Nat.lt_add_one (e * 2 ^ 52 + m))
      rw [hvalue] at hmono ⊢
      exact .inl (by nlinarith)

private theorem Central.nearest_min {q : ℚ} {magnitude : Nat} (h : Central q magnitude) :
    Nearest q (min magnitude infinite) := by
  rcases Nat.lt_or_ge infinite magnitude with hlt | hle
  case inr =>
    rw [Nat.min_eq_left hle]
    exact h.nearest hle
  rw [Nat.min_eq_right hlt.le]
  obtain ⟨below, rfl⟩ : ∃ below, magnitude = below + 1 := ⟨magnitude - 1, by omega⟩
  have hbelow := valueOf_strictMono.monotone (Nat.le_of_lt_succ hlt)
  have hmagnitude := valueOf_strictMono (Nat.lt_succ_self below)
  have hlow := h.low below rfl
  refine Central.nearest ⟨fun other hother => .inl ?_, fun habsurd => absurd habsurd (lt_irrefl _)⟩
    le_rfl
  have hbefore := valueOf_strictMono (show other < infinite by omega)
  rcases hlow with hlow | ⟨hlow, -⟩ <;> linarith

private theorem div_lastPlace_lt {num den : Nat} (hnum : 0 < num) (hden : 0 < den) :
    (num / den : ℚ) / 2 ^ lastPlace num den < 2 ^ 53 := by
  have hexponent : floorLog2 num den + 1 ≤ 53 + lastPlace num den := by
    have hplace : floorLog2 num den - 52 ≤ lastPlace num den := le_max_left _ _
    omega
  rw [div_lt_iff₀ (zpow_pos two_pos _)]
  calc (num / den : ℚ) < 2 ^ (floorLog2 num den + 1) := (floorLog2_spec hnum hden).2
    _ ≤ 2 ^ (53 + lastPlace num den) := zpow_le_zpow_right₀ one_le_two hexponent
    _ = 2 ^ 53 * 2 ^ lastPlace num den := by rw [zpow_add₀ two_ne_zero]; norm_cast

private theorem le_div_lastPlace {num den : Nat} (hnum : 0 < num) (hden : 0 < den) :
    lastPlace num den = -1074 ∨ 2 ^ 52 ≤ (num / den : ℚ) / 2 ^ lastPlace num den := by
  rcases max_choice (floorLog2 num den - 52) (-1074) with hmax | hmax
  · right
    rw [le_div_iff₀ (zpow_pos two_pos _), lastPlace, hmax]
    calc (2 : ℚ) ^ 52 * 2 ^ (floorLog2 num den - 52)
        = 2 ^ (52 + (floorLog2 num den - 52)) := by rw [zpow_add₀ two_ne_zero]; norm_cast
      _ = 2 ^ floorLog2 num den := by rw [add_sub_cancel]
      _ ≤ num / den := (floorLog2_spec hnum hden).1
  · left
    exact hmax

/-- Rounding goes to the nearest magnitude, and in the middle between two to the even one. -/
theorem nearest_nearest (num : Nat) {den : Nat} (hden : 0 < den) :
    Nearest (num / den) (nearest num den) := by
  rw [nearest]
  split
  · next hzero =>
    have hvalue : valueOf 0 = (num / den : ℚ) := by
      rw [valueOf_zero, hzero, Nat.cast_zero, zero_div]
    exact hvalue ▸ nearest_valueOf (Nat.zero_le _)
  next hnum =>
  have hplace : lastPlace num den = ((lastPlace num den + 1074).toNat - 1074 : Int) := by
    have hleast : -1074 ≤ lastPlace num den := le_max_right _ _
    omega
  have hbelow := div_lastPlace_lt (Nat.pos_of_ne_zero hnum) hden
  have habove : (lastPlace num den + 1074).toNat = 0 ∨
      2 ^ 52 ≤ (num / den : ℚ) / 2 ^ lastPlace num den :=
    (le_div_lastPlace (Nat.pos_of_ne_zero hnum) hden).imp_left fun hleast => by rw [hleast]; rfl
  rw [div_zpow_two] at hbelow habove
  have hscaled : 0 < den * Nat.pow 2 (lastPlace num den).toNat :=
    Nat.mul_pos hden (Nat.two_pow_pos _)
  have hrounded := rounded_halfEven (num * Nat.pow 2 (-lastPlace num den).toNat) hscaled
  have hcentral := (hrounded.central hbelow habove).nearest_min
  rw [← hplace, ← div_zpow_two, div_mul_cancel₀ _ (zpow_pos two_pos _).ne'] at hcentral
  exact hcentral

end Advisor.Binary64
