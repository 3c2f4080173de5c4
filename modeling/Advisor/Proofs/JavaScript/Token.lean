import Advisor.Settings.Basic
import Mathlib.Data.List.Basic

/-!
# Tokens of a program

The text of a program is cut from the left into comments, string literals, numbers, words and marks,
each as long as it can be. Blanks and line ends only separate. Templates, regular expressions and
literals in single quotes are left out, and so are escapes of more than one letter.
-/

namespace Advisor.JavaScript

inductive Token where
  | word (name : List Char)
  | number (digits : List Char)
  /-- A string literal, by the text that it stands for. -/
  | text (value : List Char)
  | mark (mark : List Char)
  /-- A comment with a closing mark of its own, without the marks. -/
  | comment (body : List Char)
  /-- A comment that ends with its line. -/
  | remark (body : List Char)
  /-- All that is left, if a comment or a literal has no end. -/
  | junk
deriving DecidableEq, Repr

def isLineEnd (c : Char) : Bool := c = '\n' || c = '\r' || c = '\u2028' || c = '\u2029'

def isBlank (c : Char) : Bool :=
  c = ' ' || c = '\t' || c = '\x0b' || c = '\x0c' || c = '\u00a0' || c = '\ufeff' || isLineEnd c

def continuesNumber (c : Char) : Bool := c.isDigit || c = '.'

def marks : List (List Char) :=
  [['\x7b'], ['\x7d'], ['('], [')'], ['['], [']'], ['.'], ['.', '.', '.'], [';'], [','], ['<'],
    ['>'], ['<', '='], ['>', '='], ['=', '='], ['!', '='], ['=', '=', '='], ['!', '=', '='], ['+'],
    ['-'], ['*'], ['/'], ['%'], ['*', '*'], ['+', '+'], ['-', '-'], ['<', '<'], ['>', '>'],
    ['>', '>', '>'], ['&'], ['|'], ['^'], ['!'], ['~'], ['&', '&'], ['|', '|'], ['?', '?'], ['?'],
    ['?', '.'], [':'], ['='], ['+', '='], ['-', '='], ['*', '='], ['/', '='], ['%', '='],
    ['*', '*', '='], ['<', '<', '='], ['>', '>', '='], ['>', '>', '>', '='], ['&', '='], ['|', '='],
    ['^', '='], ['&', '&', '='], ['|', '|', '='], ['?', '?', '='], ['=', '>']]

/-- Whether a mark or a word is in a list is decided by this instance throughout. -/
instance lawfulBEq : LawfulBEq (List Char) := inferInstance

/-- The longest mark at the beginning of the text, or else one character. -/
def longestMark (cs : List Char) : List Char :=
  if cs.take 4 ∈ marks then cs.take 4
  else if cs.take 3 ∈ marks then cs.take 3
  else if cs.take 2 ∈ marks then cs.take 2
  else cs.take 1

/-- Splits at the first place where an open comment can be closed. -/
def closeComment : List Char → Option (List Char × List Char)
  | [] => none
  | c :: rest =>
    if c = '*' ∧ rest.head? = some '/' then some ([], rest.tail)
    else (closeComment rest).map fun (body, rest) => (c :: body, rest)

/-- The character that a letter behind a backslash stands for. -/
def unescape : Char → Char
  | 'n' => '\n'
  | 'r' => '\r'
  | 't' => '\t'
  | c => c

/-- Reads an open string literal up to its quote; gives its text and what follows. A literal does
not go beyond its line. -/
def closeLiteral : List Char → Option (List Char × List Char)
  | [] => none
  | '"' :: rest => some ([], rest)
  | '\\' :: c :: rest => (closeLiteral rest).map fun (value, rest) => (unescape c :: value, rest)
  | c :: rest =>
    if c = '\n' ∨ c = '\r' then none
    else (closeLiteral rest).map fun (value, rest) => (c :: value, rest)

/-- What a comment or a literal turns into, with the text behind it. -/
def closed (token : List Char → Token) : Option (List Char × List Char) → Token × List Char
  | some (content, rest) => (token content, rest)
  | none => (.junk, [])

/-- The token that begins with the character, and the text behind it. -/
def next (c : Char) (rest : List Char) : Token × List Char :=
  if c = '/' ∧ rest.head? = some '/' then
    (.remark (rest.tail.takeWhile (!isLineEnd ·)), rest.tail.dropWhile (!isLineEnd ·))
  else if c = '/' ∧ rest.head? = some '*' then closed .comment (closeComment rest.tail)
  else if c = '"' then closed .text (closeLiteral rest)
  else if c.isDigit then
    (.number (c :: rest.takeWhile continuesNumber), rest.dropWhile continuesNumber)
  else if Settings.beginsIdentifier c then
    (.word (c :: rest.takeWhile Settings.continuesIdentifier),
      rest.dropWhile Settings.continuesIdentifier)
  else (.mark (longestMark (c :: rest)), (c :: rest).drop (longestMark (c :: rest)).length)

theorem next_remark (rest : List Char) : next '/' ('/' :: rest)
    = (.remark (rest.takeWhile (!isLineEnd ·)), rest.dropWhile (!isLineEnd ·)) := by
  rw [next, if_pos ⟨rfl, rfl⟩, List.tail_cons]

theorem next_comment (rest : List Char) :
    next '/' ('*' :: rest) = closed .comment (closeComment rest) := by
  rw [next, if_neg (by simp), if_pos ⟨rfl, rfl⟩, List.tail_cons]

theorem next_text (rest : List Char) : next '"' rest = closed .text (closeLiteral rest) := by
  rw [next, if_neg (by simp), if_neg (by simp), if_pos rfl]

theorem next_number {c : Char} (rest : List Char) (h : c.isDigit = true) : next c rest
    = (.number (c :: rest.takeWhile continuesNumber), rest.dropWhile continuesNumber) := by
  have hslash : c ≠ '/' := by rintro rfl; exact absurd h (by decide)
  have hquote : c ≠ '"' := by rintro rfl; exact absurd h (by decide)
  rw [next, if_neg (by simp [hslash]), if_neg (by simp [hslash]), if_neg hquote, if_pos h]

private theorem not_isDigit_of_beginsIdentifier {c : Char}
    (h : Settings.beginsIdentifier c = true) :
    ¬ c.isDigit = true := by
  intro hdigit
  have hletter : c.isAlpha
      = (decide (65 ≤ c.val ∧ c.val ≤ 90) || decide (97 ≤ c.val) && decide (c.val ≤ 122)) := rfl
  simp only [Settings.beginsIdentifier, hletter, Char.isDigit, Bool.or_eq_true, Bool.and_eq_true,
    decide_eq_true_eq] at h hdigit
  rcases h with (h | rfl) | rfl
  · grind
  · exact absurd hdigit (by decide)
  · exact absurd hdigit (by decide)

theorem next_word {c : Char} (rest : List Char) (h : Settings.beginsIdentifier c = true) :
    next c rest = (.word (c :: rest.takeWhile Settings.continuesIdentifier),
      rest.dropWhile Settings.continuesIdentifier) := by
  have hslash : c ≠ '/' := by rintro rfl; exact absurd h (by decide)
  have hquote : c ≠ '"' := by rintro rfl; exact absurd h (by decide)
  rw [next, if_neg (by simp [hslash]), if_neg (by simp [hslash]), if_neg hquote,
    if_neg (not_isDigit_of_beginsIdentifier h), if_pos h]

/-- The tokens of the text, of which at most so many characters and tokens are taken. -/
def scanUpTo : Nat → List Char → List Token
  | 0, _ => []
  | _, [] => []
  | n + 1, c :: rest =>
    if isBlank c then scanUpTo n rest else (next c rest).1 :: scanUpTo n (next c rest).2

/-- The tokens of the text. Each takes a character at least, so its length is steps enough. -/
def scan (cs : List Char) : List Token := scanUpTo cs.length cs

private theorem closeComment_suffix {cs body rest : List Char}
    (h : closeComment cs = some (body, rest)) : rest <:+ cs := by
  induction cs generalizing body with
  | nil => simp [closeComment] at h
  | cons c cs ih =>
    rw [closeComment] at h
    split at h
    · obtain ⟨-, rfl⟩ := Prod.mk.inj (Option.some.inj h)
      exact (List.tail_suffix cs).trans (List.suffix_cons c cs)
    · obtain ⟨⟨body', rest'⟩, hclose, heq⟩ := Option.map_eq_some_iff.mp h
      obtain ⟨-, rfl⟩ := Prod.mk.inj heq
      exact (ih hclose).trans (List.suffix_cons c cs)

private theorem closeLiteral_suffix {cs value rest : List Char}
    (h : closeLiteral cs = some (value, rest)) : rest <:+ cs := by
  fun_induction closeLiteral cs generalizing value with
  | case1 => simp at h
  | case2 tail =>
    obtain ⟨-, rfl⟩ := Prod.mk.inj (Option.some.inj h)
    exact List.suffix_cons _ _
  | case3 c tail ih =>
    obtain ⟨⟨value', rest'⟩, hclose, heq⟩ := Option.map_eq_some_iff.mp h
    obtain ⟨-, rfl⟩ := Prod.mk.inj heq
    exact (ih hclose).trans ((List.suffix_cons c tail).trans (List.suffix_cons _ _))
  | case4 => simp at h
  | case5 c tail _ _ _ ih =>
    obtain ⟨⟨value', rest'⟩, hclose, heq⟩ := Option.map_eq_some_iff.mp h
    obtain ⟨-, rfl⟩ := Prod.mk.inj heq
    exact (ih hclose).trans (List.suffix_cons c tail)

theorem longestMark_cons (c : Char) (rest : List Char) :
    ∃ more, longestMark (c :: rest) = c :: more := by
  rw [longestMark]
  split
  · exact ⟨rest.take 3, rfl⟩
  split
  · exact ⟨rest.take 2, rfl⟩
  split
  · exact ⟨rest.take 1, rfl⟩
  · exact ⟨[], rfl⟩

private theorem next_suffix (c : Char) (rest : List Char) : (next c rest).2 <:+ rest := by
  rw [next]
  split
  · exact (List.dropWhile_suffix _).trans (List.tail_suffix rest)
  split
  · cases hclose : closeComment rest.tail with
    | none => exact List.nil_suffix
    | some found =>
      obtain ⟨body, rest'⟩ := found
      exact (closeComment_suffix hclose).trans (List.tail_suffix rest)
  split
  · cases hclose : closeLiteral rest with
    | none => exact List.nil_suffix
    | some found =>
      obtain ⟨value, rest'⟩ := found
      exact closeLiteral_suffix hclose
  split
  · exact List.dropWhile_suffix _
  split
  · exact List.dropWhile_suffix _
  · obtain ⟨more, hmark⟩ := longestMark_cons c rest
    rw [hmark]
    simp only [List.length_cons, List.drop_succ_cons]
    exact List.drop_suffix _ _

private theorem length_next (c : Char) (rest : List Char) : (next c rest).2.length ≤ rest.length :=
  (next_suffix c rest).length_le

private theorem scanUpTo_eq {n m : Nat} {cs : List Char} (hn : cs.length ≤ n) (hm : cs.length ≤ m) :
    scanUpTo n cs = scanUpTo m cs := by
  induction n generalizing m cs with
  | zero =>
    have hnil : cs = [] := List.length_eq_zero_iff.mp (Nat.le_zero.mp hn)
    cases m <;> simp [hnil, scanUpTo]
  | succ n ih =>
    cases cs with
    | nil => cases m <;> rfl
    | cons c rest =>
      cases m with
      | zero => simp at hm
      | succ m =>
        have hn' := Nat.le_of_succ_le_succ hn
        have hm' := Nat.le_of_succ_le_succ hm
        have hnext := length_next c rest
        rw [scanUpTo, scanUpTo, ih hn' hm',
          ih (Nat.le_trans hnext hn') (Nat.le_trans hnext hm')]

@[simp] theorem scan_nil : scan [] = [] := rfl

theorem scan_blank {c : Char} (rest : List Char) (h : isBlank c = true) :
    scan (c :: rest) = scan rest := by
  rw [scan, List.length_cons, scanUpTo, if_pos h, scan]

theorem scan_cons {c : Char} (rest : List Char) (h : isBlank c = false) :
    scan (c :: rest) = (next c rest).1 :: scan (next c rest).2 := by
  rw [scan, List.length_cons, scanUpTo, h, if_neg Bool.false_ne_true,
    scan, scanUpTo_eq (length_next c rest) (Nat.le_refl _)]

/-- Induction on a text along its tokens. -/
theorem scan_induction {motive : List Char → Prop} (nil : motive [])
    (blank : ∀ c rest, isBlank c = true → motive rest → motive (c :: rest))
    (token : ∀ c rest, isBlank c = false → motive (next c rest).2 → motive (c :: rest))
    (cs : List Char) : motive cs := by
  induction hlength : cs.length using Nat.strongRecOn generalizing cs with
  | ind n ih =>
    cases cs with
    | nil => exact nil
    | cons c rest =>
      subst hlength
      cases hblank : isBlank c with
      | true => exact blank c rest hblank (ih _ (Nat.lt_succ_self _) rest rfl)
      | false =>
        exact token c rest hblank (ih _ (Nat.lt_succ_of_le (length_next c rest)) _ rfl)

theorem exists_next_of_mem_scan {cs : List Char} {t : Token} (h : t ∈ scan cs) :
    ∃ c rest, c :: rest <:+ cs ∧ t = (next c rest).1 := by
  induction cs using scan_induction with
  | nil => simp at h
  | blank c rest hblank ih =>
    rw [scan_blank _ hblank] at h
    obtain ⟨d, left, hsuffix, hnext⟩ := ih h
    exact ⟨d, left, hsuffix.trans (List.suffix_cons c rest), hnext⟩
  | token c rest hblank ih =>
    rw [scan_cons _ hblank] at h
    rcases List.mem_cons.mp h with rfl | h
    · exact ⟨c, rest, List.suffix_rfl, rfl⟩
    · obtain ⟨d, left, hsuffix, hnext⟩ := ih h
      exact ⟨d, left, (hsuffix.trans (next_suffix c rest)).trans (List.suffix_cons c rest), hnext⟩

private theorem next_eq_junk {c : Char} {rest : List Char} (h : (next c rest).1 = .junk) :
    (next c rest).2 = [] := by
  have hclosed {token : List Char → Token} (htoken : ∀ content, token content ≠ .junk)
      {found : Option (List Char × List Char)} (h : (closed token found).1 = .junk) :
      (closed token found).2 = [] := by
    cases found with
    | none => rfl
    | some found => exact absurd h (htoken found.1)
  rw [next] at h ⊢
  split_ifs at h ⊢ with hremark hcomment hquote
  · exact hclosed (fun _ => Token.noConfusion) h
  · exact hclosed (fun _ => Token.noConfusion) h

/-- A comment or a literal without an end is the last token. -/
theorem getLast?_of_junk_mem {cs : List Char} (h : .junk ∈ scan cs) :
    (scan cs).getLast? = some .junk := by
  induction cs using scan_induction with
  | nil => simp at h
  | blank c rest hblank ih =>
    rw [scan_blank _ hblank] at h ⊢
    exact ih h
  | token c rest hblank ih =>
    rw [scan_cons _ hblank] at h ⊢
    rcases List.mem_cons.mp h with hjunk | h
    · rw [← hjunk, next_eq_junk hjunk.symm]
      rfl
    · rw [List.getLast?_cons, ih h]
      rfl

end Advisor.JavaScript
