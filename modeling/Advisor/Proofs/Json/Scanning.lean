import Advisor.Json.Token
import Advisor.Json.Writer
import Advisor.Proofs.Text.Digits
import Mathlib.Algebra.Group.Int.Defs
import Mathlib.Data.List.TakeWhile

/-!
# Scanning what was written

A text in quotes and an integer are scanned back to what they were written from, whatever follows
the quote, and whatever follows the digits as long as it does not go on with the number.
-/

namespace Advisor.Json

namespace Quoted

private theorem hexDigit?_hexChar {n : Nat} (h : n < 16) : hexDigit? (hexChar n) = some n := by
  have hall : ∀ k < 16, hexDigit? (hexChar k) = some k := by decide
  exact hall n h

/-- The piece that a character is scanned as, once it has been written. -/
def piece (c : Char) : Piece :=
  if c.toNat < 0x20 ∧ c ∉ ['\n', '\r', '\t', '\x08', '\x0c'] then .unit c.toNat else .char c

private theorem scan_short {letter c : Char} (h : unescape? letter = some c) (rest : List Char) :
    scan ('\\' :: letter :: rest) = (scan rest).map fun found => (.char c :: found.1, found.2) := by
  have hletter : letter ≠ 'u' := by
    rintro rfl
    cases h
  rw [scan]
  · rw [h]
    cases scan rest <;> rfl
  · exact fun _ _ _ _ _ hu => absurd hu hletter

private theorem scan_unit (c : Char) (hcontrol : c.toNat < 0x20) (rest : List Char) :
    scan ('\\' :: 'u' :: '0' :: '0' :: hexChar (c.toNat / 16) :: hexChar (c.toNat % 16) :: rest)
      = (scan rest).map fun found => (.unit c.toNat :: found.1, found.2) := by
  have hhigh := hexDigit?_hexChar (n := c.toNat / 16) (by omega)
  have hlow := hexDigit?_hexChar (n := c.toNat % 16) (by omega)
  have hunit : unit? '0' '0' (hexChar (c.toNat / 16)) (hexChar (c.toNat % 16)) = some c.toNat := by
    have hzero : hexDigit? '0' = some 0 := rfl
    simp [unit?, hhigh, hlow, hzero]
    omega
  rw [scan, hunit]
  cases scan rest <;> rfl

private theorem scan_plain {c : Char} (hcontrol : ¬ c.toNat < 0x20) (hquote : c ≠ '"')
    (hslash : c ≠ '\\') (rest : List Char) :
    scan (c :: rest) = (scan rest).map fun found => (.char c :: found.1, found.2) := by
  rw [scan]
  · rw [if_neg (by simp [hcontrol, hslash])]
    cases scan rest <;> rfl
  all_goals simp [hquote, hslash]

private theorem scan_escape (c : Char) (rest : List Char) :
    scan (escape c ++ rest) = (scan rest).map fun found => (piece c :: found.1, found.2) := by
  unfold escape
  split
  case h_8 hquote hslash hn hr ht hb hf =>
    split
    · next hcontrol =>
      have hpiece : piece c = .unit c.toNat := by simp_all [piece]
      rw [hpiece]
      exact scan_unit c hcontrol rest
    · next hplain =>
      have hpiece : piece c = .char c := by simp [piece, hplain]
      rw [hpiece]
      exact scan_plain hplain hquote hslash rest
  all_goals exact scan_short rfl rest

theorem scan_flatMap_escape (s rest : List Char) :
    scan (s.flatMap escape ++ '"' :: rest) = some (s.map piece, rest) := by
  induction s with
  | nil => rfl
  | cons c s ih => rw [List.flatMap_cons, List.append_assoc, scan_escape, ih]; rfl

private theorem text?_unit {u : Nat} (h : u < 0xD800) (rest : List Piece) :
    text? (.unit u :: rest) = (text? rest).map (Char.ofNat u :: ·) := by
  have hhigh : isHighSurrogate u = false := by simp [isHighSurrogate]; omega
  have hlow : isLowSurrogate u = false := by simp [isLowSurrogate]; omega
  cases rest with
  | nil => simp [text?, hhigh, hlow]
  | cons next rest => cases next <;> simp [text?, hhigh, hlow]

theorem text?_map_piece (s : List Char) : text? (s.map piece) = some s := by
  induction s with
  | nil => rfl
  | cons c s ih =>
    rw [List.map_cons, piece]
    split
    · next hcontrol => rw [text?_unit (by omega), ih, Char.ofNat_toNat, Option.map_some]
    · rw [text?, ih, Option.map_some]

end Quoted

namespace Numeral

/-- The text does not go on with a number. -/
def Ends : List Char → Prop
  | [] => True
  | c :: _ => c.isDigit = false ∧ c ∉ ['.', 'e', 'E']

private theorem scanDigits_append {digits rest : List Char}
    (hdigits : ∀ c ∈ digits, c.isDigit = true) (hrest : Ends rest) :
    scanDigits (digits ++ rest) = (digits.map fun c => c.toNat - '0'.toNat, rest) := by
  rw [scanDigits, List.takeWhile_append_of_pos hdigits, List.dropWhile_append_of_pos hdigits]
  cases rest with
  | nil => simp
  | cons c rest => simp [hrest.1]

/-- The digits of the numeral that stands for a number. -/
def digitsOf (n : Nat) : List Nat := (Nat.toDigits 10 n).map fun c => c.toNat - '0'.toNat

@[simp] theorem natural_digitsOf (n : Nat) : natural (digitsOf n) = n := by
  rw [natural, digitsOf, List.foldl_map, ← Nat.ofDigitChars_eq_foldl, Nat.ofDigitChars_ten_toDigits]

private theorem scanWhole_toDigits (n : Nat) {rest : List Char} (hrest : Ends rest) :
    scanWhole (Nat.toDigits 10 n ++ rest) = some (digitsOf n, rest) := by
  have hscan : scanDigits (Nat.toDigits 10 n ++ rest) = (digitsOf n, rest) :=
    scanDigits_append (fun _ => Text.isDigit_of_mem_toDigits) hrest
  rw [scanWhole, hscan]
  rcases Nat.eq_zero_or_pos n with rfl | hn
  · rfl
  · obtain ⟨first, more, heq, hfirst⟩ := Text.exists_toDigits_cons hn
    have hvalue := Text.digit_ne_zero (Text.isDigit_of_mem_toDigits (by rw [heq]; simp)) hfirst
    simp only [digitsOf, heq, List.map_cons]
    split <;> simp_all

private theorem scanFraction_of_ends {rest : List Char} (h : Ends rest) :
    scanFraction rest = some (none, rest) := by
  cases rest with
  | nil => rfl
  | cons c rest =>
    rw [scanFraction]
    rintro s heq
    simp [Ends, (List.cons.inj heq).1] at h

private theorem scanExponent_of_ends {rest : List Char} (h : Ends rest) :
    scanExponent rest = some (none, rest) := by
  cases rest with
  | nil => rfl
  | cons c rest =>
    rw [scanExponent]
    all_goals
      rintro s heq
      simp [Ends, (List.cons.inj heq).1] at h

theorem exists_integerNotation_cons (i : Int) :
    ∃ c more, integerNotation i = c :: more ∧ (c = '-' ∨ c.isDigit = true) := by
  rw [integerNotation]
  split
  · exact ⟨_, _, rfl, .inl rfl⟩
  · obtain ⟨c, more, heq, hc⟩ := Text.exists_isDigit_cons i.natAbs
    exact ⟨c, more, heq, .inr hc⟩

theorem scan_integerNotation (i : Int) {rest : List Char} (hrest : Ends rest) :
    scan (integerNotation i ++ rest)
      = some (⟨decide (i < 0), digitsOf i.natAbs, none, none⟩, rest) := by
  have hwhole := scanWhole_toDigits i.natAbs hrest
  rw [integerNotation]
  by_cases h : i < 0
  · simp [scan, h, hwhole, scanFraction_of_ends hrest, scanExponent_of_ends hrest]
  · have hsign : ∀ s, Nat.toDigits 10 i.natAbs ++ rest ≠ '-' :: s := by
      intro s heq
      obtain ⟨first, more, hcons, hfirst⟩ := Text.exists_isDigit_cons i.natAbs
      rw [hcons, List.cons_append] at heq
      simp [(List.cons.inj heq).1] at hfirst
    rw [if_neg h, scan]
    · simp [h, hwhole, scanFraction_of_ends hrest, scanExponent_of_ends hrest]
    · exact hsign

theorem number?_integer {i : Int} (hlow : -2 ^ 63 ≤ i) (hhigh : i < 2 ^ 64) :
    number? ⟨decide (i < 0), digitsOf i.natAbs, none, none⟩ = some (.integer i) := by
  have h63 : Nat.pow 2 63 = 9223372036854775808 := rfl
  have h64 : Nat.pow 2 64 = 18446744073709551616 := rfl
  simp only [number?, isIntegral, natural_digitsOf, Option.isNone_none, Bool.and_self, Bool.true_and]
  by_cases h : i < 0
  · have hmagnitude : 0 < i.natAbs ∧ i.natAbs ≤ Nat.pow 2 63 := by omega
    have hi : -(i.natAbs : Int) = i := by omega
    rw [decide_eq_true h, decide_eq_true hmagnitude, hi]
    rfl
  · have hmagnitude : i.natAbs < Nat.pow 2 64 := by omega
    have hi : (i.natAbs : Int) = i := by omega
    rw [decide_eq_false h, decide_eq_true hmagnitude, hi]
    rfl

end Numeral

end Advisor.Json
