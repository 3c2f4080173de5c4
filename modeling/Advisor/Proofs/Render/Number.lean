import Advisor.Proofs.Binary64.Decimal
import Advisor.Proofs.Binary64.Signed
import Advisor.Render.Expression

/-!
# Number literals denote their numbers

The text of a finite double is a numeral without an exponent, with a sign exactly if the double has
one. What it denotes rounds to the double and to no other, so no two finite doubles have one text.
-/

namespace Advisor

/-- The numeral has the sign of the double, and what it denotes rounds to the double. -/
structure Denotes (n : Text.Numeral) (x : Binary64) : Prop where
  isNaN : x.isNaN = false
  negative : n.negative = x.negative
  roundsTo : Binary64.RoundsTo n.value x

namespace Denotes

variable {n : Text.Numeral} {x y : Binary64}

private theorem iff_nearest (hx : x.isNaN = false) (hsign : n.negative = x.negative) :
    Denotes n x ↔ Binary64.Nearest n.magnitude x.magnitude := by
  have hvalue : n.value = Binary64.signed x.negative n.magnitude := by
    rw [← hsign]
    rfl
  rw [← Binary64.roundsTo_signed_iff hx n.magnitude_nonneg, ← hvalue]
  exact ⟨Denotes.roundsTo, fun h => ⟨hx, hsign, h⟩⟩

theorem unique (h : Denotes n x) (h' : Denotes n y) : x = y :=
  Binary64.eq_of_magnitude_eq (h.negative.symm.trans h'.negative)
    (((iff_nearest h.isNaN h.negative).mp h).unique ((iff_nearest h'.isNaN h'.negative).mp h'))

end Denotes

namespace Render

variable {x : Binary64}

private theorem toList_number (hfinite : x.isFinite = true) :
    (number x).toList = (if x.negative then ['-'] else [])
      ++ if x.magnitude = 0 then ['0'] else (Decimal.shortest .away x.magnitude).positional := by
  have hnumber := Binary64.isNaN_of_isFinite hfinite
  have hsign : (if x.negative then "-" else "").toList = if x.negative then ['-'] else [] := by
    cases x.negative <;> rfl
  simp only [number, hnumber, hfinite, not_true, Bool.false_eq_true, if_false]
  split <;> simp [hsign]

/-- The text of a finite double is a numeral that denotes it. -/
theorem exists_numeral (hfinite : x.isFinite = true) :
    ∃ n : Text.Numeral, (number x).toList = n.text ∧ Denotes n x := by
  have hnumber := Binary64.isNaN_of_isFinite hfinite
  have hle := Binary64.magnitude_le_infinite hnumber
  by_cases hzero : x.magnitude = 0
  · have hvalue : Binary64.valueOf 0
        = Text.Numeral.magnitude ⟨x.negative, ['0'], [], by simp, .inl rfl⟩ := by
      have hread : Nat.ofDigitChars 10 ['0'] 0 = 0 := rfl
      simp [Binary64.valueOf_zero, Text.Numeral.magnitude, hread]
    refine ⟨⟨x.negative, ['0'], [], by simp, .inl rfl⟩, ?_, ?_⟩
    · rw [toList_number hfinite, if_pos hzero, Text.Numeral.text, Text.Numeral.decimals, if_pos rfl,
        List.append_nil]
    · rw [Denotes.iff_nearest hnumber rfl, hzero, ← hvalue]
      exact Binary64.nearest_valueOf (Nat.zero_le _)
  · have hnearest := Decimal.nearest_shortest .away hle
    have hpos := Decimal.digits_pos_of_nearest hnearest (Nat.pos_of_ne_zero hzero)
    obtain ⟨whole, fraction, hparts, heq⟩ := Decimal.exists_parts hpos
    refine ⟨⟨x.negative, whole, fraction, hparts.isDigit_of_mem, hparts.first⟩, ?_, ?_⟩
    · rw [toList_number hfinite, if_neg hzero, heq, Text.Numeral.text, Text.Numeral.decimals,
        List.append_assoc]
    · rw [Denotes.iff_nearest hnumber rfl, Text.Numeral.magnitude, hparts.value]
      exact hnearest

/-- The literal of a finite double is a numeral without an exponent that denotes the double and no
other, so different doubles have different literals. -/
theorem number_denotes (c : Context) :
    (∀ x : Binary64, x.isFinite = true → ∃ n : Text.Numeral,
      ((Expression.number x).render c).toList = n.text ∧ Denotes n x ∧ ∀ y, Denotes n y → y = x)
    ∧ ∀ x y : Binary64, x.isFinite = true → y.isFinite = true → x ≠ y →
      (Expression.number x).render c ≠ (Expression.number y).render c := by
  refine ⟨fun x hx => ?_, fun x y hx hy hne heq => hne ?_⟩
  · obtain ⟨n, htext, hdenotes⟩ := exists_numeral hx
    exact ⟨n, htext, hdenotes, fun y hy => hy.unique hdenotes⟩
  · obtain ⟨n, htext, hdenotes⟩ := exists_numeral hx
    obtain ⟨n', htext', hdenotes'⟩ := exists_numeral hy
    have hnumber : number x = number y := heq
    obtain rfl := Text.Numeral.text_injective (htext.symm.trans (hnumber ▸ htext'))
    exact hdenotes.unique hdenotes'

example : number ⟨0x3FB999999999999A⟩ = "0.1" := by decide +kernel

/-- The two zeros, and the negative double that is nearest to them. -/
theorem leastNegative_denotes :
    (Binary64.mk 0x8000000000000001).isFinite = true
    ∧ (∃ n : Text.Numeral,
      ((Expression.number ⟨0x8000000000000001⟩).render ⟨⟨[], [], []⟩, .standard⟩).toList = n.text
        ∧ Denotes n ⟨0x8000000000000001⟩ ∧ ∀ y, Denotes n y → y = ⟨0x8000000000000001⟩)
    ∧ (Binary64.mk 0).isFinite = true ∧ (Binary64.mk 0x8000000000000000).isFinite = true
    ∧ Binary64.mk 0 ≠ ⟨0x8000000000000000⟩
    ∧ (Expression.number ⟨0⟩).render ⟨⟨[], [], []⟩, .standard⟩
      ≠ (Expression.number ⟨0x8000000000000000⟩).render ⟨⟨[], [], []⟩, .standard⟩ := by
  obtain ⟨hdenotes, hapart⟩ := number_denotes ⟨⟨[], [], []⟩, .standard⟩
  have hleast : (Binary64.mk 0x8000000000000001).isFinite = true := by decide
  have hzero : (Binary64.mk 0).isFinite = true := by decide
  have hnegative : (Binary64.mk 0x8000000000000000).isFinite = true := by decide
  have hne : Binary64.mk 0 ≠ ⟨0x8000000000000000⟩ := by decide
  exact ⟨hleast, hdenotes _ hleast, hzero, hnegative, hne, hapart _ _ hzero hnegative hne⟩

end Render

end Advisor
