import Advisor.Proofs.JavaScript.Balance
import Advisor.Render.Statement

/-!
# Lines as tokens

The lines of a program are scanned one by one: no token but a comment goes beyond its line, and the
blanks in front of a line do not count. So what the scanner finds does not depend on the depth. A
line is laid out if it stands as many levels in as braces are open where it begins, or one less if
it closes one; that is said of lines under any open brackets, and lines of the one kind are put
together from lines of the other.
-/

namespace Advisor.JavaScript

/-- With its line break the text is scanned as the tokens, whatever follows. -/
def LineScans (text : String) (ts : List Token) : Prop :=
  ∀ rest, scan (text.toList ++ '\n' :: rest) = ts ++ scan rest

/-- The lines as they are printed, each with its line break. -/
def printed (s : Settings) (depth : Nat) (ls : List Line) : List Char :=
  ls.flatMap fun l => (l.print s depth).toList ++ ['\n']

/-- The lines are scanned as the tokens, at any depth and whatever follows. -/
def LinesScan (ls : List Line) (ts : List Token) : Prop :=
  ∀ s depth rest, scan (printed s depth ls ++ rest) = ts ++ scan rest

theorem toList_print (s : Settings) (depth : Nat) (l : Line) : (l.print s depth).toList
    = List.replicate (s.indent * (depth + l.level)) ' ' ++ l.text.toList := by
  rw [Line.print, Settings.indentation, String.toList_append, String.toList_ofList]

theorem printed_cons (s : Settings) (depth : Nat) (l : Line) (ls : List Line) :
    printed s depth (l :: ls) = (l.print s depth).toList ++ '\n' :: printed s depth ls := by
  simp [printed]

theorem toList_printAll (s : Settings) (depth : Nat) {ls : List Line} (h : ls ≠ []) :
    (Line.printAll s depth ls).toList ++ ['\n'] = printed s depth ls := by
  induction ls with
  | nil => exact absurd rfl h
  | cons l ls ih =>
    cases ls with
    | nil => simp [Line.printAll, Text.join, printed]
    | cons m ls =>
      have hrest := ih (List.cons_ne_nil m ls)
      have hline : ("\n" : String).toList = ['\n'] := rfl
      simp only [Line.printAll, List.map_cons, printed, List.flatMap_cons] at hrest ⊢
      rw [Text.join, String.toList_append, String.toList_append, List.append_assoc, hrest, hline]

private theorem scan_replicate_blank (n : Nat) (rest : List Char) :
    scan (List.replicate n ' ' ++ rest) = scan rest := by
  induction n with
  | zero => rfl
  | succ n ih => rw [List.replicate_succ, List.cons_append, scan_blank _ rfl, ih]

private theorem scan_print (s : Settings) (depth : Nat) (l : Line) (rest : List Char) :
    scan ((l.print s depth).toList ++ rest) = scan (l.text.toList ++ rest) := by
  rw [toList_print, List.append_assoc, scan_replicate_blank]

namespace LinesScan

variable {ls ls' : List Line} {ts ts' : List Token}

theorem nil : LinesScan [] [] := fun _ _ _ => rfl

theorem cons {l : Line} (hline : LineScans l.text ts) (h : LinesScan ls ts') :
    LinesScan (l :: ls) (ts ++ ts') := by
  intro s depth rest
  rw [printed_cons, List.append_assoc, List.cons_append, scan_print, hline, h, List.append_assoc]

end LinesScan

theorem scan_fixed {text : String} {ts : List Token}
    (h : steady text.toList = true ∧ scan text.toList = ts) (rest : List Char) :
    scan (text.toList ++ rest) = ts ++ scan rest := by
  rw [scan_append rest h.1, h.2]

theorem lineScans_fixed {text : String} {ts : List Token}
    (h : steady text.toList = true ∧ scan text.toList = ts) : LineScans text ts := by
  intro rest
  rw [scan_fixed h, scan_blank _ rfl]

theorem LineScans.prepend {pre s : String} {head ts : List Token}
    (hpre : ∀ rest, scan (pre.toList ++ rest) = head ++ scan rest) (h : LineScans s ts) :
    LineScans (pre ++ s) (head ++ ts) := by
  intro rest
  rw [String.toList_append, List.append_assoc, hpre, h, List.append_assoc]

/-- Where a line stands that is not empty: as many levels in as braces are open, or one less if it
begins with a closing one. -/
def Placed (stack : List (List Char)) (level : Nat) (text : String) : Prop :=
  ∀ d ∈ text.toList.head?, d ≠ ' ' ∧ level + (if d = '\x7d' then 1 else 0) = braces stack

theorem placed_of_opens {text : String} (h : opens text = true) (stack : List (List Char)) :
    Placed stack (braces stack) text := by
  obtain ⟨d, more, htext, hblocked⟩ := opens_iff.mp h
  intro e he
  obtain rfl : d = e := by simpa [htext] using he
  simp only [blocked, List.mem_cons, List.not_mem_nil, or_false, not_or] at hblocked
  simp [hblocked]

/-- The lines are scanned as the tokens and placed as the brackets that are open have it, given the
brackets in front of them and those behind. -/
inductive Laid (base : Nat) :
    List (List Char) → List Line → List Token → List (List Char) → Prop
  | nil {stack} : Laid base stack [] [] stack
  | cons {stack inner last l ls ts us} (scans : LineScans l.text ts)
      (placed : Placed stack (base + l.level) l.text) (nests : nest stack ts = some inner)
      (rest : Laid base inner ls us last) : Laid base stack (l :: ls) (ts ++ us) last

namespace Laid

variable {base : Nat} {stack inner last : List (List Char)} {ls ls' : List Line}
  {ts us : List Token}

theorem append (h : Laid base stack ls ts inner) (h' : Laid base inner ls' us last) :
    Laid base stack (ls ++ ls') (ts ++ us) last := by
  induction h with
  | nil => exact h'
  | cons hscan hplaced hnest _ ih =>
    rw [List.append_assoc]
    exact .cons hscan hplaced hnest (ih h')

theorem deeper (h : Laid (base + 1) stack ls ts last) :
    Laid base stack (ls.map Line.deeper) ts last := by
  induction h with
  | nil => exact .nil
  | cons hscan hplaced hnest _ ih =>
    rw [Nat.add_right_comm] at hplaced
    exact .cons hscan hplaced hnest ih

theorem linesScan (h : Laid base stack ls ts last) : LinesScan ls ts := by
  induction h with
  | nil => exact LinesScan.nil
  | cons hscan _ _ _ ih => exact LinesScan.cons hscan ih

theorem nest_eq (h : Laid base stack ls ts last) : nest stack ts = some last := by
  induction h with
  | nil => rfl
  | cons _ _ hnest _ ih => rw [nest_append, hnest, Option.bind_some, ih]

theorem flatMap {α : Type} {ls : α → List Line} {ts : α → List Token} {as : List α}
    (h : ∀ a ∈ as, Laid base stack (ls a) (ts a) stack) :
    Laid base stack (as.flatMap ls) (as.flatMap ts) stack := by
  induction as with
  | nil => exact .nil
  | cons a as ih =>
    obtain ⟨ha, has⟩ := List.forall_mem_cons.mp h
    rw [List.flatMap_cons, List.flatMap_cons]
    exact ha.append (ih has)

/-- Each line is placed by the brackets that are open behind the lines in front of it. -/
theorem exists_placed {l : Line} (h : Laid base stack (ls ++ l :: ls') ts last) :
    ∃ us inner, us <+: ts ∧ LinesScan ls us ∧ nest stack us = some inner
      ∧ Placed inner (base + l.level) l.text := by
  induction ls generalizing stack ts with
  | nil =>
    cases h with
    | cons hscan hplaced hnest hrest =>
      exact ⟨[], stack, List.nil_prefix, LinesScan.nil, rfl, hplaced⟩
  | cons m ls ih =>
    cases h with
    | @cons _ _ _ _ _ head _ hscan hplaced hnest hrest =>
      obtain ⟨us, inner, hprefix, hus, hinner, hl⟩ := ih hrest
      refine ⟨head ++ us, inner, (List.prefix_append_right_inj head).mpr hprefix,
        LinesScan.cons hscan hus, ?_, hl⟩
      rw [nest_append, hnest, Option.bind_some, hinner]

theorem lead {text : String} {head : List Token} (hne : ls ≠ [])
    (htext : ∀ rest, scan (text.toList ++ rest) = head ++ scan rest)
    (hhead : nest stack head = some inner)
    (hplaced : ∀ l ∈ ls.head?, Placed stack (base + l.level) (text ++ l.text))
    (h : Laid base inner ls ts last) : Laid base stack (Line.lead text ls) (head ++ ts) last := by
  cases h with
  | nil => exact absurd rfl hne
  | cons hscan _ hnest hrest =>
    rw [← List.append_assoc]
    refine .cons (hscan.prepend htext) (hplaced _ rfl) ?_ hrest
    rw [nest_append, hhead, Option.bind_some, hnest]

end Laid

/-- Under any open brackets the lines are laid out, and they leave open what was. -/
def Fits (ls : List Line) (ts : List Token) : Prop :=
  ∀ stack, Laid (braces stack) stack ls ts stack

/-- Under any open brackets the lines are laid out and close the innermost, which is a brace. -/
def Shuts (ls : List Line) (ts : List Token) : Prop :=
  ∀ stack, Laid (braces stack) (['\x7b'] :: stack) ls ts stack

section Fits

variable {ls ls' : List Line} {ts us : List Token} {text : String}

theorem Fits.append (h : Fits ls ts) (h' : Fits ls' us) : Fits (ls ++ ls') (ts ++ us) :=
  fun stack => (h stack).append (h' stack)

theorem Fits.neutral (h : Fits ls ts) : Neutral ts := by
  apply neutral_of_nest
  exact (h []).nest_eq

theorem Fits.flatMap {α : Type} {ls : α → List Line} {ts : α → List Token} {as : List α}
    (h : ∀ a ∈ as, Fits (ls a) (ts a)) : Fits (as.flatMap ls) (as.flatMap ts) :=
  fun stack => .flatMap fun a ha => h a ha stack

theorem Fits.linesScan (h : Fits ls ts) : LinesScan ls ts := (h []).linesScan

theorem fits_line (hscan : LineScans text ts) (hneutral : Neutral ts) (hopens : opens text = true) :
    Fits [⟨0, text⟩] ts := by
  intro stack
  have hline := Laid.cons (l := ⟨0, text⟩) hscan (placed_of_opens hopens stack)
    (hneutral.nest stack) .nil
  rwa [List.append_nil] at hline

theorem Laid.blank {base : Nat} {stack last : List (List Char)} (h : Laid base stack ls ts last) :
    Laid base stack (⟨0, ""⟩ :: ls) ts last := by
  have hscan : LineScans "" [] := lineScans_fixed (by decide)
  exact .cons (l := ⟨0, ""⟩) hscan (by simp [Placed]) rfl h

theorem Laid.braced {stack outer : List (List Char)} {head : List Token}
    (hscan : LineScans (text ++ "\x7b") head)
    (hplaced : Placed stack (braces outer) (text ++ "\x7b"))
    (hhead : nest stack head = some (['\x7b'] :: outer)) (h : Fits ls ts) (h' : Shuts ls' us) :
    Laid (braces outer) stack (Line.braced text ls ls') (head ++ (ts ++ us)) outer := by
  have hbody := h (['\x7b'] :: outer)
  rw [braces_brace] at hbody
  exact .cons hscan hplaced hhead (hbody.deeper.append (h' outer))

theorem Fits.braced {head : List Token} (hscan : LineScans (text ++ "\x7b") head)
    (hopens : opens text = true)
    (hhead : ∀ stack, nest stack head = some (['\x7b'] :: stack)) (h : Fits ls ts)
    (h' : Shuts ls' us) : Fits (Line.braced text ls ls') (head ++ (ts ++ us)) :=
  fun stack => .braced hscan (placed_of_opens (opens_append hopens) stack) (hhead stack) h h'

theorem placed_shut (stack : List (List Char)) (text : String) :
    Placed (['\x7b'] :: stack) (braces stack) ("\x7d" ++ text) := by
  intro d hd
  obtain rfl : '\x7d' = d := by simpa using hd
  simp

theorem shuts_close : Shuts Line.close [.mark ['\x7d']] := by
  intro stack
  have hscan : LineScans "\x7d" [.mark ['\x7d']] := lineScans_fixed (by decide)
  exact Laid.cons (l := ⟨0, "\x7d"⟩) hscan (placed_shut stack "") (nest_close (by decide) stack [])
    .nil

end Fits

end Advisor.JavaScript
