import Mathlib.Data.Nat.Init

/-!
# Decimal digits
-/

namespace Advisor.Text

theorem isDigit_of_mem_toDigits {n : Nat} {c : Char} (h : c ∈ Nat.toDigits 10 n) :
    c.isDigit = true :=
  Nat.isDigit_of_mem_toDigits (by decide) (by decide) h

theorem exists_isDigit_cons (n : Nat) :
    ∃ d more, Nat.toDigits 10 n = d :: more ∧ d.isDigit = true := by
  obtain ⟨d, more, heq⟩ := List.exists_cons_of_ne_nil (Nat.toDigits_ne_nil (n := n) (b := 10))
  exact ⟨d, more, heq, isDigit_of_mem_toDigits (heq ▸ List.mem_cons_self)⟩

theorem exists_toDigits_cons {n : Nat} (h : 0 < n) :
    ∃ d more, Nat.toDigits 10 n = d :: more ∧ d ≠ '0' := by
  induction n using Nat.strongRecOn with
  | ind n ih =>
    by_cases hbase : n < 10
    · refine ⟨n.digitChar, [], Nat.toDigits_of_lt_base hbase, ?_⟩
      have hall : ∀ k < 10, 0 < k → k.digitChar ≠ '0' := by decide
      exact hall n hbase h
    · have hle : 10 ≤ n := Nat.le_of_not_lt hbase
      obtain ⟨d, more, hdigits, hd⟩ := ih (n / 10) (by omega) (by omega)
      refine ⟨d, more ++ [(n % 10).digitChar], ?_, hd⟩
      rw [Nat.toDigits_of_base_le (by decide) hle, hdigits, List.cons_append]

theorem digit_ne_zero {c : Char} (hdigit : c.isDigit = true) (h : c ≠ '0') :
    c.toNat - '0'.toNat ≠ 0 := by
  intro hzero
  simp only [Char.isDigit, Bool.and_eq_true, decide_eq_true_eq] at hdigit
  have hlow : 48 ≤ c.toNat := UInt32.le_iff_toNat_le.mp hdigit.1
  have heq : c.toNat = '0'.toNat := Nat.le_antisymm (Nat.le_of_sub_eq_zero hzero) hlow
  exact h (Char.toNat_inj.mp heq)

end Advisor.Text
