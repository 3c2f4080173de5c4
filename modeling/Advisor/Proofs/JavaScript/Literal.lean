import Advisor.Json.Quoted
import Advisor.Proofs.Render.OneLine

/-!
# String literals say their strings

A literal is read here with everything that strict code, such as that of a class, can have between
double quotes: escapes of one letter, of two or four hexadecimal digits, of a code point in braces,
and lines that a backslash continues. Its value is a string of 16-bit units. What is written for a
string ends at its own closing quote, whatever follows, and has the units of that string as its value.
The scanner of tokens, which knows fewer escapes, finds the same end and the same string there
(`scan_literal`).
-/

namespace Advisor.JavaScript

/-- The 16-bit units of a code point, a surrogate pair from `0x10000` on. -/
def unitsOf (n : Nat) : List Nat :=
  if n < 0x10000 then [n] else [0xD800 + (n - 0x10000) / 0x400, 0xDC00 + (n - 0x10000) % 0x400]

/-- The 16-bit units of a text. -/
def units (cs : List Char) : List Nat := cs.flatMap fun c => unitsOf c.toNat

@[simp] theorem units_cons (c : Char) (cs : List Char) :
    units (c :: cs) = unitsOf c.toNat ++ units cs := rfl

/-- The first unit of a character tells whether there is a second one, since no character is a
surrogate. -/
theorem unitsOf_append_inj {c d : Char} {us vs : List Nat}
    (h : unitsOf c.toNat ++ us = unitsOf d.toNat ++ vs) : c = d ∧ us = vs := by
  have hc : c.toNat < 0xD800 ∨ 0xDFFF < c.toNat ∧ c.toNat < 0x110000 := c.valid
  have hd : d.toNat < 0xD800 ∨ 0xDFFF < d.toNat ∧ d.toNat < 0x110000 := d.valid
  have heq : c.toNat = d.toNat ∧ us = vs := by
    unfold unitsOf at h
    split at h <;> split at h <;>
      simp only [List.cons_append, List.nil_append, List.cons.injEq] at h
    · exact h
    · omega
    · omega
    · obtain ⟨hhigh, hlow, htail⟩ := h
      exact ⟨by omega, htail⟩
  exact ⟨Char.toNat_inj.mp heq.1, heq.2⟩

private theorem units_injective : Function.Injective units := by
  intro cs ds h
  have hfirst (c : Char) (cs : List Char) : units (c :: cs) ≠ [] := by
    rw [units_cons, unitsOf]
    split <;> simp
  induction cs generalizing ds with
  | nil =>
    cases ds with
    | nil => rfl
    | cons d ds => exact absurd h.symm (hfirst d ds)
  | cons c cs ih =>
    cases ds with
    | nil => exact absurd h (hfirst c cs)
    | cons d ds =>
      obtain ⟨rfl, htail⟩ := unitsOf_append_inj h
      rw [ih htail]

namespace Literal

/-- The number that hexadecimal digits write, of which there is one at least. -/
def hexadecimal? (digits : List Char) : Option Nat :=
  if digits.isEmpty then none
  else digits.foldlM (fun n c => (Json.Quoted.hexDigit? c).map (16 * n + ·)) 0

/-- The character that one behind a backslash stands for, unless more of them belong together. -/
def control : Char → Char
  | 'b' => '\x08'
  | 't' => '\t'
  | 'n' => '\n'
  | 'v' => '\x0b'
  | 'f' => '\x0c'
  | 'r' => '\r'
  | c => c

/-- Reads a code point up to the closing brace; gives its units and the text behind it. -/
def codePoint? (cs : List Char) : Option (List Nat × List Char) :=
  match cs.dropWhile (· ≠ '\x7d') with
  | [] => none
  | _ :: rest =>
    (hexadecimal? (cs.takeWhile (· ≠ '\x7d'))).bind fun n =>
      if n ≤ 0x10FFFF then some (unitsOf n, rest) else none

/-- Reads what follows a backslash; gives its units and the text behind it. A line that is continued
has none. A digit is an escape only if it is a zero that no digit follows. -/
def escape? : List Char → Option (List Nat × List Char)
  | [] => none
  | '\r' :: '\n' :: rest => some ([], rest)
  | 'x' :: a :: b :: rest => (hexadecimal? [a, b]).map fun n => ([n], rest)
  | 'u' :: '\x7b' :: rest => codePoint? rest
  | 'u' :: a :: b :: c :: d :: rest => (hexadecimal? [a, b, c, d]).map fun n => ([n], rest)
  | c :: rest =>
    if isLineEnd c then some ([], rest)
    else if c = '0' ∧ rest.head?.all (!·.isDigit) then some ([0], rest)
    else if c.isDigit ∨ c = 'x' ∨ c = 'u' then none
    else some (unitsOf (control c).toNat, rest)

private theorem length_codePoint? {cs rest : List Char} {us : List Nat}
    (h : codePoint? cs = some (us, rest)) : rest.length < cs.length := by
  have hle := (List.dropWhile_suffix (l := cs) (· ≠ '\x7d')).length_le
  unfold codePoint? at h
  split at h
  · simp at h
  · next brace tail hdrop =>
    obtain ⟨n, -, hn⟩ := Option.bind_eq_some_iff.mp h
    split at hn
    · obtain ⟨-, rfl⟩ := Prod.mk.inj (Option.some.inj hn)
      rw [hdrop, List.length_cons] at hle
      exact hle
    · simp at hn

private theorem length_escape? {cs rest : List Char} {us : List Nat}
    (h : escape? cs = some (us, rest)) : rest.length < cs.length := by
  unfold escape? at h
  split at h
  case h_1 => simp at h
  case h_2 =>
    obtain ⟨-, rfl⟩ := Prod.mk.inj (Option.some.inj h)
    simp only [List.length_cons]
    omega
  case h_4 =>
    have hlength := length_codePoint? h
    simp only [List.length_cons]
    omega
  case h_6 => split_ifs at h <;> simp_all
  all_goals
    obtain ⟨n, -, hn⟩ := Option.map_eq_some_iff.mp h
    obtain ⟨-, rfl⟩ := Prod.mk.inj hn
    simp only [List.length_cons]
    omega

/-- Puts the units in front of those that were read. -/
def prepend (us : List Nat) (found : List Nat × List Char) : List Nat × List Char :=
  (us ++ found.1, found.2)

/-- Reads an open literal up to the first quote that is not escaped; gives its units and the text
behind it. -/
def close : List Char → Option (List Nat × List Char)
  | [] => none
  | '"' :: rest => some ([], rest)
  | '\\' :: rest =>
    match h : escape? rest with
    | none => none
    | some (us, behind) =>
      have := length_escape? h
      (close behind).map (prepend us)
  | c :: rest =>
    if c = '\n' ∨ c = '\r' then none else (close rest).map (prepend (unitsOf c.toNat))
termination_by cs => cs.length

/-- Reads the literal that the text begins with. -/
def read : List Char → Option (List Nat × List Char)
  | '"' :: rest => close rest
  | _ => none

example : read "\"\\x41\\u\x7b1F600\x7d\\0\\\nb\" + c".toList
    = some ([0x41, 0xD83D, 0xDE00, 0, 0x62], " + c".toList) := by
  decide +kernel

private theorem close_escaped {cs rest : List Char} {us : List Nat}
    (h : escape? cs = some (us, rest)) :
    close ('\\' :: cs) = (close rest).map (prepend us) := by
  rw [close]
  split
  · simp_all
  · simp_all

private theorem close_plain {c : Char} (hquote : c ≠ '"') (hslash : c ≠ '\\')
    (hline : ¬ (c = '\n' ∨ c = '\r')) (rest : List Char) :
    close (c :: rest) = (close rest).map (prepend (unitsOf c.toNat)) := by
  rw [close, if_neg hline]
  · exact hquote
  · exact hslash

/-- However a character is written inside a literal, it is read as the units of the character. -/
theorem close_escape (c : Char) (rest : List Char) :
    close (Render.escape c ++ rest) = (close rest).map (prepend (unitsOf c.toNat)) := by
  unfold Render.escape
  split
  case h_6 hslash hquote hline hreturn _ =>
    exact close_plain hquote hslash (not_or.mpr ⟨hline, hreturn⟩) rest
  all_goals exact close_escaped rfl

private theorem close_flatMap_escape (cs rest : List Char) :
    close (cs.flatMap Render.escape ++ '"' :: rest) = some (units cs, rest) := by
  induction cs with
  | nil => rw [List.flatMap_nil, List.nil_append, close, units, List.flatMap_nil]
  | cons c cs ih => rw [List.flatMap_cons, List.append_assoc, close_escape, ih]; rfl

private theorem read_text (s : String) (rest : List Char) :
    read ((Render.text s).toList ++ rest) = some (units s.toList, rest) := by
  have hsplit : (Render.text s).toList ++ rest
      = '"' :: (s.toList.flatMap Render.escape ++ '"' :: rest) := by
    simp [Render.text]
  rw [hsplit, read, close_flatMap_escape]

/-- No literal begins another, since both would be read from the same text. -/
theorem text_append_inj {s s' : String} {rest rest' : List Char}
    (h : (Render.text s).toList ++ rest = (Render.text s').toList ++ rest') :
    s = s' ∧ rest = rest' := by
  have hread := read_text s rest
  rw [h, read_text s' rest'] at hread
  obtain ⟨hunits, hrest⟩ := Prod.mk.inj (Option.some.inj hread)
  exact ⟨String.toList_inj.mp (units_injective hunits).symm, hrest.symm⟩

/-- A literal is read up to its own closing quote, whatever follows, and says exactly its string; it
stays on one line. So no literal begins another, and different strings have different literals. -/
theorem literals_delimited (c : Context) (s : String) :
    (∀ rest, read (((Expression.text s).render c).toList ++ rest) = some (units s.toList, rest))
    ∧ ('\n' ∉ s.toList.flatMap Render.escape ∧ '\r' ∉ s.toList.flatMap Render.escape)
    ∧ ∀ s' rest rest', ((Expression.text s).render c).toList ++ rest
      = ((Expression.text s').render c).toList ++ rest' ↔ s = s' ∧ rest = rest' := by
  have hbreak {e : Char} (he : e = '\n' ∨ e = '\r') : e ∉ s.toList.flatMap Render.escape := by
    simp [Render.lineBreak_not_mem_escape he]
  refine ⟨read_text s, ⟨hbreak (.inl rfl), hbreak (.inr rfl)⟩, fun s' rest rest' => ?_⟩
  constructor
  · exact text_append_inj
  · rintro ⟨rfl, rfl⟩
    rfl

end Literal

end Advisor.JavaScript
