import Advisor.Proofs.JavaScript.Token

/-!
# Brackets and assignments

How deep in brackets a token stands is counted from the left. An assignment outside of all brackets
of a text takes everything around the text with it, for its operator binds weaker than any other.
-/

namespace Advisor.JavaScript

def opening : List (List Char) := [['('], ['['], ['\x7b']]

def closing : List (List Char) := [[')'], [']'], ['\x7d']]

def assignmentMarks : List (List Char) :=
  [['='], ['+', '='], ['-', '='], ['*', '='], ['/', '='], ['%', '='], ['*', '*', '='],
    ['<', '<', '='], ['>', '>', '='], ['>', '>', '>', '='], ['&', '='], ['|', '='], ['^', '='],
    ['&', '&', '='], ['|', '|', '='], ['?', '?', '=']]

/-- Whether an assignment operator stands outside the brackets, of which so many are closed only
behind the tokens. -/
def assignsAt : Nat → List Token → Bool
  | _, [] => false
  | depth, .mark mark :: rest =>
    if opening.contains mark then assignsAt (depth + 1) rest
    else if closing.contains mark then assignsAt (depth - 1) rest
    else (depth == 0 && assignmentMarks.contains mark) || assignsAt depth rest
  | depth, _ :: rest => assignsAt depth rest

/-- Whether an assignment operator stands in the text outside all brackets. -/
def assignsOutside (text : String) : Bool := assignsAt 0 (scan text.toList)

/-- Whether the tokens close the brackets that are open in front of them and those that they open
themselves, and assign inside brackets only. -/
def closes : Nat → List Token → Bool
  | depth, [] => depth == 0
  | depth, .mark mark :: rest =>
    if opening.contains mark then closes (depth + 1) rest
    else if closing.contains mark then 1 ≤ depth && closes (depth - 1) rest
    else (1 ≤ depth || !assignmentMarks.contains mark) && closes depth rest
  | depth, _ :: rest => closes depth rest

theorem assignsAt_append {ts : List Token} {inner : Nat} (h : closes inner ts = true) (depth : Nat)
    (rest : List Token) : assignsAt (depth + inner) (ts ++ rest) = assignsAt depth rest := by
  induction ts generalizing inner with
  | nil =>
    obtain rfl : inner = 0 := by simpa [closes] using h
    rfl
  | cons t ts ih =>
    cases t with
    | mark mark =>
      rw [closes] at h
      rw [List.cons_append, assignsAt]
      split at h
      · next hopen => rw [if_pos hopen, Nat.add_assoc, ih h]
      next hopen =>
      rw [if_neg hopen]
      split at h
      · next hclose =>
        obtain ⟨hpos, htail⟩ := by simpa using h
        rw [if_pos hclose, Nat.add_sub_assoc hpos, ih htail]
      · next hclose =>
        obtain ⟨hassign, htail⟩ := Bool.and_eq_true_iff.mp h
        rw [if_neg hclose, ih htail]
        cases inner with
        | zero =>
          have hfree : mark ∉ assignmentMarks := by simpa using hassign
          simp [hfree]
        | succ inner => simp
    | word | number | text | comment | remark | junk => exact ih h

end Advisor.JavaScript
