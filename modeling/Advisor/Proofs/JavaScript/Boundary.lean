import Advisor.Proofs.JavaScript.Token
import Advisor.Render.Expression

/-!
# Where tokens end

Whether a token goes on is decided by the character behind it. What is scanned from a text therefore
does not change when another text follows, as long as that does not continue the last token.
-/

namespace Advisor.JavaScript

/-- The text does not begin with a character that could continue a word or a number. -/
def Stops (rest : List Char) : Prop :=
  ∀ c ∈ rest.head?, Settings.continuesIdentifier c = false ∧ c ≠ '.'

theorem stops_nil : Stops [] := by
  intro c hc
  simp at hc

theorem stops_cons {c : Char} {rest : List Char}
    (h : (Settings.continuesIdentifier c || c == '.') = false) : Stops (c :: rest) := by
  intro d hd
  obtain rfl : c = d := by simpa using hd
  simpa using h

theorem continuesNumber_of_stops {c : Char} (h : Settings.continuesIdentifier c = false ∧ c ≠ '.') :
    continuesNumber c = false := by
  obtain ⟨hword, hdot⟩ := h
  simp only [Settings.continuesIdentifier, Char.isAlphanum, Bool.or_eq_false_iff] at hword
  simp [continuesNumber, hword.1.1.2, hdot]

/-- The characters that turn the mark into a longer one or into a comment. -/
def followers (mark : List Char) : List Char :=
  (if mark = ['/'] then ['/', '*'] else [])
    ++ marks.filterMap fun longer => if mark.isPrefixOf longer then longer[mark.length]? else none

private theorem mem_followers {mark more : List Char} {c : Char} (h : mark ++ c :: more ∈ marks) :
    c ∈ followers mark := by
  apply List.mem_append_right
  refine List.mem_filterMap.mpr ⟨_, h, ?_⟩
  simp

private theorem length_mark {mark : List Char} (h : mark ∈ marks) :
    1 ≤ mark.length ∧ mark.length ≤ 4 := by
  revert mark
  decide

private theorem longestMark_append {mark rest : List Char} (hmark : mark ∈ marks)
    (hrest : ∀ c ∈ rest.head?, c ∉ followers mark) : longestMark (mark ++ rest) = mark := by
  have longer {n : Nat} (hn : mark.length ≤ n) (h : (mark ++ rest).take n ∈ marks) :
      (mark ++ rest).take n = mark := by
    rw [List.take_append] at h ⊢
    rw [List.take_of_length_le hn] at h ⊢
    cases htail : rest.take (n - mark.length) with
    | nil => rw [List.append_nil]
    | cons c more =>
      rw [htail] at h
      have hc : c ∈ rest.head? := by
        cases rest with
        | nil => simp at htail
        | cons d rest =>
          cases hd : n - mark.length with
          | zero => simp [hd] at htail
          | succ k =>
            rw [hd, List.take_succ_cons] at htail
            simp [(List.cons.inj htail).1]
      exact absurd (mem_followers h) (hrest c hc)
  have whole : (mark ++ rest).take mark.length = mark := List.take_left
  obtain ⟨hpos, hlen⟩ := length_mark hmark
  have missed {n : Nat} (h : (mark ++ rest).take n ∉ marks) : mark.length ≠ n := by
    rintro rfl
    exact h (by rwa [whole])
  rw [longestMark]
  split
  · next h => exact longer hlen h
  split
  · next h4 h => exact longer (by have := missed h4; omega) h
  split
  · next h4 h3 h => exact longer (by have := missed h4; have := missed h3; omega) h
  · next h4 h3 h2 =>
    have : mark.length = 1 := by
      have := missed h4; have := missed h3; have := missed h2; omega
    rw [← this, whole]

theorem longestMark_isPrefix (cs : List Char) : longestMark cs <+: cs := by
  rw [longestMark]
  split
  · exact List.take_prefix _ _
  split
  · exact List.take_prefix _ _
  split <;> exact List.take_prefix _ _

private theorem head_mark {c : Char} {more : List Char} (h : c :: more ∈ marks) :
    isBlank c = false ∧ c ≠ '"' ∧ c.isDigit = false ∧ Settings.beginsIdentifier c = false := by
  have all : ∀ mark ∈ marks, mark.head?.all (fun c => !isBlank c && c != '"' && !c.isDigit &&
      !Settings.beginsIdentifier c) = true := by decide
  simpa [and_assoc] using all _ h

private theorem next_mark {c : Char} {more rest : List Char} (hmark : c :: more ∈ marks)
    (hrest : ∀ d ∈ rest.head?, d ∉ followers (c :: more)) :
    next c (more ++ rest) = (.mark (c :: more), rest) := by
  obtain ⟨-, hquote, hdigit, hletter⟩ := head_mark hmark
  have noComment (d : Char) (hd : d ∈ ['/', '*']) :
      ¬ (c = '/' ∧ (more ++ rest).head? = some d) := by
    rintro ⟨rfl, hhead⟩
    cases more with
    | nil =>
      apply hrest d (by simpa using hhead)
      exact List.mem_append_left _ (by simpa using hd)
    | cons e more =>
      have comments : ∀ mark ∈ marks, mark.head? = some '/' → mark.tail.head? ∉ [some '/', some '*'] := by
        decide
      apply comments _ hmark rfl
      rw [List.cons_append, List.head?_cons] at hhead
      simpa [hhead] using hd
  have hlongest : longestMark (c :: (more ++ rest)) = c :: more := longestMark_append hmark hrest
  rw [next, if_neg (noComment '/' (by simp)), if_neg (noComment '*' (by simp)), if_neg hquote,
    hdigit, if_neg Bool.false_ne_true, hletter, if_neg Bool.false_ne_true, hlongest]
  simp

theorem scan_mark {mark : List Char} (rest : List Char) (hmark : mark ∈ marks)
    (hrest : ∀ d ∈ rest.head?, d ∉ followers mark) :
    scan (mark ++ rest) = .mark mark :: scan rest := by
  cases mark with
  | nil => exact absurd (length_mark hmark).1 (by simp)
  | cons c more => rw [List.cons_append, scan_cons _ (head_mark hmark).1, next_mark hmark hrest]

theorem takeWhile_dropWhile_append {p : Char → Bool} {cs rest : List Char}
    (h : cs.dropWhile p = [] → ∀ c ∈ rest.head?, p c = false) :
    (cs ++ rest).takeWhile p = cs.takeWhile p ∧
      (cs ++ rest).dropWhile p = cs.dropWhile p ++ rest := by
  induction cs with
  | nil =>
    cases rest with
    | nil => exact ⟨rfl, rfl⟩
    | cons c rest =>
      have hc := h rfl c rfl
      simp [hc]
  | cons c cs ih =>
    by_cases hc : p c = true
    · rw [List.dropWhile_cons_of_pos hc] at h
      obtain ⟨htake, hdrop⟩ := ih h
      simp [hc, htake, hdrop]
    · simp [hc]

theorem closeComment_append {cs body rest : List Char} (more : List Char)
    (h : closeComment cs = some (body, rest)) :
    closeComment (cs ++ more) = some (body, rest ++ more) := by
  induction cs generalizing body with
  | nil => simp [closeComment] at h
  | cons c cs ih =>
    rw [closeComment] at h
    rw [List.cons_append, closeComment]
    split at h
    · next hclose =>
      obtain ⟨rfl, rfl⟩ := Prod.mk.inj (Option.some.inj h)
      cases cs with
      | nil => simp at hclose
      | cons d cs => simpa using hclose
    · next hopen =>
      obtain ⟨⟨body', rest'⟩, hclose, heq⟩ := Option.map_eq_some_iff.mp h
      obtain ⟨rfl, rfl⟩ := Prod.mk.inj heq
      rw [if_neg, ih hclose]
      · rfl
      · cases cs with
        | nil => simp [closeComment] at hclose
        | cons d cs => simpa using hopen

theorem closeLiteral_append {cs value rest : List Char} (more : List Char)
    (h : closeLiteral cs = some (value, rest)) :
    closeLiteral (cs ++ more) = some (value, rest ++ more) := by
  fun_induction closeLiteral cs generalizing value with
  | case1 => simp at h
  | case2 tail =>
    obtain ⟨rfl, rfl⟩ := Prod.mk.inj (Option.some.inj h)
    rfl
  | case3 c tail ih =>
    obtain ⟨⟨value', rest'⟩, hclose, heq⟩ := Option.map_eq_some_iff.mp h
    obtain ⟨rfl, rfl⟩ := Prod.mk.inj heq
    simp [closeLiteral, ih hclose]
  | case4 => simp at h
  | case5 c tail hquote hescape hline ih =>
    obtain ⟨⟨value', rest'⟩, hclose, heq⟩ := Option.map_eq_some_iff.mp h
    obtain ⟨rfl, rfl⟩ := Prod.mk.inj heq
    rw [List.cons_append, closeLiteral, if_neg hline, ih hclose]
    · rfl
    · exact hquote
    · intro d rest'' hc htail
      cases tail with
      | nil => simp [closeLiteral] at hclose
      | cons e tail => exact hescape e tail hc rfl

/-- The token does not change when more text follows behind what it left over. A token that is loose
may be the last one only if that text stops it. -/
def steadyToken (loose : Bool) (token : Token) (rest : List Char) : Bool :=
  match token with
  | .word _ | .number _ => loose || !rest.isEmpty
  | .text _ | .comment _ => true
  | .mark mark =>
    marks.contains mark && (followers mark).all fun c => !rest.isEmpty && rest.head? != some c
  | .remark _ | .junk => false

def steadyUpTo (loose : Bool) : Nat → List Char → Bool
  | 0, cs => cs.isEmpty
  | _, [] => true
  | n + 1, c :: rest =>
    if isBlank c then steadyUpTo loose n rest
    else steadyToken loose (next c rest).1 (next c rest).2 && steadyUpTo loose n (next c rest).2

/-- All tokens of the text are complete, whatever follows. -/
def steady (cs : List Char) : Bool := steadyUpTo false cs.length cs

/-- All tokens of the text are complete, if a word or a number at its end is. -/
def steadyIfStopped (cs : List Char) : Bool := steadyUpTo true cs.length cs

private theorem next_append {loose : Bool} {c : Char} {cs more : List Char}
    (hsteady : steadyToken loose (next c cs).1 (next c cs).2 = true)
    (hmore : loose = true → Stops more) :
    next c (cs ++ more) = ((next c cs).1, (next c cs).2 ++ more) := by
  have stopped {p : Char → Bool} (hp : ∀ d, Settings.continuesIdentifier d = false ∧ d ≠ '.' → p d = false)
      (h : (loose || !(cs.dropWhile p).isEmpty) = true) :
      cs.dropWhile p = [] → ∀ d ∈ more.head?, p d = false := by
    intro hnil d hd
    have hloose : loose = true := by simpa [hnil] using h
    exact hp d (hmore hloose d hd)
  by_cases hremark : c = '/' ∧ cs.head? = some '/'
  · obtain ⟨rfl, hhead⟩ := hremark
    obtain ⟨cs, rfl⟩ := List.head?_eq_some_iff.mp hhead
    simp [next_remark, steadyToken] at hsteady
  by_cases hcomment : c = '/' ∧ cs.head? = some '*'
  · obtain ⟨rfl, hhead⟩ := hcomment
    obtain ⟨cs, rfl⟩ := List.head?_eq_some_iff.mp hhead
    rw [List.cons_append, next_comment, next_comment]
    cases hclose : closeComment cs with
    | none => simp [next_comment, hclose, closed, steadyToken] at hsteady
    | some found =>
      obtain ⟨body, rest⟩ := found
      rw [closeComment_append more hclose]
      rfl
  by_cases hquote : c = '"'
  · subst hquote
    rw [next_text, next_text]
    cases hclose : closeLiteral cs with
    | none => simp [next_text, hclose, closed, steadyToken] at hsteady
    | some found =>
      obtain ⟨value, rest⟩ := found
      rw [closeLiteral_append more hclose]
      rfl
  by_cases hdigit : c.isDigit = true
  · rw [next_number _ hdigit] at hsteady
    have hspan := takeWhile_dropWhile_append (stopped (fun _ => continuesNumber_of_stops) hsteady)
    rw [next_number _ hdigit, next_number _ hdigit, hspan.1, hspan.2]
  by_cases hletter : Settings.beginsIdentifier c = true
  · rw [next_word _ hletter] at hsteady
    have hspan := takeWhile_dropWhile_append (stopped (fun d hd => hd.1) hsteady)
    rw [next_word _ hletter, next_word _ hletter, hspan.1, hspan.2]
  · obtain ⟨mark, hmark⟩ := longestMark_cons c cs
    obtain ⟨rest, hsplit⟩ := hmark ▸ longestMark_isPrefix (c :: cs)
    obtain rfl : mark ++ rest = cs := (List.cons.inj hsplit).2
    have hnext : next c (mark ++ rest) = (.mark (c :: mark), rest) := by
      rw [next, if_neg hremark, if_neg hcomment, if_neg hquote, if_neg hdigit, if_neg hletter, hmark]
      simp
    rw [hnext] at hsteady ⊢
    obtain ⟨hmem, hfollow⟩ : c :: mark ∈ marks ∧
        ∀ d ∈ followers (c :: mark), rest ≠ [] ∧ rest.head? ≠ some d := by
      simpa [steadyToken] using hsteady
    rw [List.append_assoc, next_mark hmem]
    intro d hd hmem'
    obtain ⟨hne, hhead⟩ := hfollow d hmem'
    cases rest with
    | nil => exact hne rfl
    | cons e rest => exact hhead (by simpa using hd)

private theorem scan_append_of_steadyUpTo {loose : Bool} {n : Nat} {cs more : List Char}
    (hsteady : steadyUpTo loose n cs = true) (hmore : loose = true → Stops more) :
    scan (cs ++ more) = scan cs ++ scan more := by
  induction n generalizing cs with
  | zero =>
    obtain rfl : cs = [] := by simpa [steadyUpTo] using hsteady
    rfl
  | succ n ih =>
    cases cs with
    | nil => rfl
    | cons c cs =>
      rw [steadyUpTo] at hsteady
      split at hsteady
      · next hblank =>
        rw [List.cons_append, scan_blank _ hblank, scan_blank _ hblank, ih hsteady]
      · next hblank =>
        rw [Bool.not_eq_true] at hblank
        rw [Bool.and_eq_true] at hsteady
        rw [List.cons_append, scan_cons _ hblank, scan_cons _ hblank,
          next_append hsteady.1 hmore, ih hsteady.2, List.cons_append]

theorem scan_append {cs : List Char} (more : List Char) (h : steady cs = true) :
    scan (cs ++ more) = scan cs ++ scan more :=
  scan_append_of_steadyUpTo h (fun hfalse => absurd hfalse Bool.false_ne_true)

theorem scan_append_of_stops {cs more : List Char} (h : steadyIfStopped cs = true)
    (hmore : Stops more) : scan (cs ++ more) = scan cs ++ scan more :=
  scan_append_of_steadyUpTo h (fun _ => hmore)

end Advisor.JavaScript
