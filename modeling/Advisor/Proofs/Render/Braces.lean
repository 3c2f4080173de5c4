import Advisor.Proofs.Render.LocalNames

/-!
# Texts of statements by recursion

The text of a statement is put together from texts of the statements inside it. A block gives the
texts of its members that are not empty, and a body stands in braces, rendered one level deeper. A
branch in the alternate of another follows on the line of the closing brace, so its bodies stand no
deeper than those of the first.
-/

namespace Advisor

namespace Text

variable {separator : String} {ss : List String} {sss : List (List String)}

private theorem preceded_eq (h : ss ≠ []) :
    preceded separator ss = separator ++ join separator ss := by
  obtain ⟨s, rest, rfl⟩ := List.exists_cons_of_ne_nil h
  rw [preceded, join_cons, String.append_assoc]

private theorem join_append_left (h : ss ≠ []) (ts : List String) :
    join separator (ss ++ ts) = join separator ss ++ preceded separator ts := by
  have hjoin := join_append_append separator h [] ts
  rwa [List.nil_append, followed, String.empty_append] at hjoin

private theorem join_ne_empty (hss : ∀ s ∈ ss, s ≠ "") (h : ss ≠ []) : join separator ss ≠ "" := by
  obtain ⟨s, rest, rfl⟩ := List.exists_cons_of_ne_nil h
  rw [join_cons]
  simp [hss s List.mem_cons_self]

/-- What is joined may be joined in parts, where parts without text are left out. Behind the first
part the induction needs the same with separators in front. -/
theorem join_preceded_flatten (h : ∀ ss ∈ sss, ∀ s ∈ ss, s ≠ "") :
    join separator sss.flatten
        = join separator ((sss.map (join separator)).filter (· ≠ "")) ∧
      preceded separator sss.flatten
        = preceded separator ((sss.map (join separator)).filter (· ≠ "")) := by
  induction sss with
  | nil => exact ⟨rfl, rfl⟩
  | cons ss sss ih =>
    obtain ⟨hss, hsss⟩ := List.forall_mem_cons.mp h
    obtain ⟨hjoin, hpreceded⟩ := ih hsss
    rw [List.flatten_cons, List.map_cons]
    by_cases hnil : ss = []
    · subst hnil
      exact ⟨hjoin, hpreceded⟩
    · rw [List.filter_cons_of_pos (by simpa using join_ne_empty hss hnil), join_append_left hnil,
        preceded_append, hpreceded, join_cons, preceded, preceded_eq hnil]
      exact ⟨rfl, rfl⟩

end Text

namespace Line

variable {ls closing : List Line} {text : String}

/-- No line is without text, and the first and the last stand at level zero. -/
structure Tidy (ls : List Line) : Prop where
  filled : ∀ l ∈ ls, l.text ≠ ""
  first : ∀ l ∈ ls.head?, l.level = 0
  last : ∀ l ∈ ls.getLast?, l.level = 0

private theorem tidy_nil : Tidy [] := ⟨by simp, by simp, by simp⟩

private theorem tidy_singleton (h : text ≠ "") : Tidy [⟨0, text⟩] := ⟨by simp [h], by simp, by simp⟩

private theorem tidy_close : Tidy close := tidy_singleton (by decide)

theorem Tidy.append {ls' : List Line} (h : Tidy ls) (h' : Tidy ls') : Tidy (ls ++ ls') where
  filled := List.forall_mem_append.mpr ⟨h.filled, h'.filled⟩
  first := by
    intro l hl
    rw [List.head?_append, Option.mem_def, Option.or_eq_some_iff] at hl
    rcases hl with hl | ⟨-, hl⟩
    · exact h.first l hl
    · exact h'.first l hl
  last := by
    intro l hl
    rw [List.getLast?_append, Option.mem_def, Option.or_eq_some_iff] at hl
    rcases hl with hl | ⟨-, hl⟩
    · exact h'.last l hl
    · exact h.last l hl

theorem Tidy.flatMap {α : Type} {lines : α → List Line} {as : List α}
    (h : ∀ a ∈ as, Tidy (lines a)) : Tidy (as.flatMap lines) := by
  induction as with
  | nil => exact tidy_nil
  | cons a as ih =>
    obtain ⟨ha, has⟩ := List.forall_mem_cons.mp h
    rw [List.flatMap_cons]
    exact ha.append (ih has)

/-- Only the closing lines have to end at level zero. -/
theorem tidy_braced (opening : String) (hls : Tidy ls) (hclosing : Tidy closing)
    (hne : closing ≠ []) : Tidy (braced opening ls closing) where
  filled := by
    have hopening : opening ++ "\x7b" ≠ "" := by simp
    refine List.forall_mem_cons.mpr ⟨hopening, List.forall_mem_append.mpr ⟨?_, hclosing.filled⟩⟩
    exact List.forall_mem_map.mpr hls.filled
  first := by simp [braced]
  last := by
    intro l hl
    rw [braced, ← List.cons_append, List.getLast?_append, Option.mem_def,
      Option.or_eq_some_iff] at hl
    rcases hl with hl | ⟨hnone, -⟩
    · exact hclosing.last l hl
    · exact absurd (List.getLast?_eq_none_iff.mp hnone) hne

theorem Tidy.lead (h : Tidy ls) (text : String) : Tidy (lead text ls) := by
  cases ls with
  | nil => exact tidy_nil
  | cons l ls =>
    obtain ⟨hl, hls⟩ := List.forall_mem_cons.mp h.filled
    have hlevel : l.level = 0 := h.first l rfl
    refine ⟨List.forall_mem_cons.mpr ⟨by simp [hl], hls⟩, by simp [Line.lead, hlevel], ?_⟩
    have hlast := h.last
    cases ls with
    | nil => simp [Line.lead, hlevel]
    | cons m ls =>
      rw [List.getLast?_cons_cons] at hlast
      rw [Line.lead, List.getLast?_cons_cons]
      exact hlast

variable {s : Settings} {depth : Nat}

private theorem print_ne_empty {l : Line} (h : l.text ≠ "") : l.print s depth ≠ "" := by
  simp [print, h]

private theorem print_ne_empty_of_mem (h : ∀ l ∈ ls, l.text ≠ "") :
    ∀ t ∈ ls.map (print s depth), t ≠ "" :=
  List.forall_mem_map.mpr fun l hl => print_ne_empty (h l hl)

theorem printAll_eq_empty_iff (h : ∀ l ∈ ls, l.text ≠ "") : printAll s depth ls = "" ↔ ls = [] := by
  cases ls with
  | nil => exact iff_of_true rfl rfl
  | cons l ls =>
    have hprinted : printAll s depth (l :: ls) ≠ "" :=
      Text.join_ne_empty (print_ne_empty_of_mem h) (List.cons_ne_nil _ _)
    exact iff_of_false hprinted (List.cons_ne_nil l ls)

end Line

namespace Render

/-- A text in braces of which the second stands behind the margin. -/
def braces (margin inner : String) : String :=
  "\x7b\n" ++ (if inner = "" then "" else inner ++ "\n") ++ margin ++ "\x7d"

end Render

namespace Line

variable {s : Settings} {depth : Nat} {ls closing : List Line}

private theorem printAll_braced (opening : String) {rest : String} (h : ∀ l ∈ ls, l.text ≠ "")
    (hclosing : Text.preceded "\n" (closing.map (print s depth))
      = "\n" ++ s.indentation depth ++ "\x7d" ++ rest) :
    printAll s depth (braced opening ls closing) = s.indentation depth ++ opening
      ++ Render.braces (s.indentation depth) (printAll s (depth + 1) ls) ++ rest := by
  have hopen : "\x7b\n" = "\x7b" ++ "\n" := rfl
  rw [printAll, braced, List.map_cons, Text.join_cons, List.map_append, Text.preceded_append,
    hclosing, Render.braces, print]
  by_cases hnil : ls = []
  · subst hnil
    simp only [printAll, List.map_nil, Text.preceded, Text.join, if_true, String.append_assoc,
      String.empty_append, Nat.add_zero, hopen]
  · have hinner : printAll s (depth + 1) ls ≠ "" :=
      fun hempty => hnil ((printAll_eq_empty_iff h).mp hempty)
    rw [if_neg hinner, Text.preceded_eq (by simpa using hnil), ← printAll_deeper, printAll]
    simp only [String.append_assoc, Nat.add_zero, hopen]

private theorem preceded_braced (opening : String) :
    Text.preceded "\n" ((braced opening ls closing).map (print s depth))
      = "\n" ++ printAll s depth (braced opening ls closing) :=
  Text.preceded_eq (by simp [braced])

private theorem preceded_close : Text.preceded "\n" (close.map (print s depth))
    = "\n" ++ s.indentation depth ++ "\x7d" ++ "" := by
  simp [close, print, Text.preceded, String.append_assoc]

private theorem lead_braced (text opening : String) :
    lead text (braced opening ls closing) = braced (text ++ opening) ls closing := by
  rw [braced, braced, lead, String.append_assoc]

end Line

namespace Statement

variable {c : Context} {depth : Nat}

/-- The lines from the brace that closes the consequent of a branch. -/
def closing (c : Context) : Option Statement → List Line
  | none => Line.close
  | some alternate => otherwise alternate (alternate.lines c)

private theorem lines_branch (condition : Expression) (consequent : Statement)
    (alternate : Option Statement) : (branch condition consequent alternate).lines c
      = Line.braced ("if (" ++ condition.render c ++ ") ") (consequent.lines c)
        (closing c alternate) := by
  cases alternate <;> rfl

/-- The lines of a statement, by induction on the statement. A branch has at least one line. -/
theorem tidy_lines (s : Statement) :
    Line.Tidy (s.lines c) ∧ (s.isBranch = true → s.lines c ≠ []) := by
  induction s with
  | block body ih =>
    rw [lines, linesAll_eq]
    exact ⟨Line.Tidy.flatMap fun s hs => (ih s hs).1, Bool.noConfusion⟩
  | branch condition consequent alternate ihc iha =>
    have hclosing : Line.Tidy (closing c alternate) ∧ closing c alternate ≠ [] := by
      cases alternate with
      | none => exact ⟨Line.tidy_close, List.cons_ne_nil _ _⟩
      | some alternate =>
        obtain ⟨htidy, hne⟩ := iha alternate rfl
        rw [closing, otherwise]
        split
        · next hbranch =>
          refine ⟨htidy.lead _, ?_⟩
          obtain ⟨l, ls, hlines⟩ := List.exists_cons_of_ne_nil (hne hbranch)
          rw [hlines]
          exact List.cons_ne_nil _ _
        · exact ⟨Line.tidy_braced _ htidy Line.tidy_close (List.cons_ne_nil _ _),
            List.cons_ne_nil _ _⟩
    rw [lines_branch]
    exact ⟨Line.tidy_braced _ ihc.1 hclosing.1 hclosing.2, fun _ => List.cons_ne_nil _ _⟩
  | forLoop init condition update body ih =>
    rw [lines]
    exact ⟨Line.tidy_braced _ ih.1 Line.tidy_close (List.cons_ne_nil _ _), Bool.noConfusion⟩
  | whileLoop condition body ih =>
    rw [lines]
    exact ⟨Line.tidy_braced _ ih.1 Line.tidy_close (List.cons_ne_nil _ _), Bool.noConfusion⟩
  | returns value =>
    cases value <;> exact ⟨Line.tidy_singleton (by simp), Bool.noConfusion⟩
  | breaks | continues | evaluate | declare | unsupported =>
    exact ⟨Line.tidy_singleton (by simp), Bool.noConfusion⟩

theorem text_ne_empty (s : Statement) : ∀ l ∈ s.lines c, l.text ≠ "" := s.tidy_lines.1.filled

theorem render_block (body : List Statement) : (block body).render c depth
    = Text.join "\n" ((body.map (render c depth)).filter (· ≠ "")) := by
  have hfilled : ∀ ts ∈ body.map fun s => (s.lines c).map (Line.print c.settings depth),
      ∀ t ∈ ts, t ≠ "" :=
    List.forall_mem_map.mpr fun s _ => Line.print_ne_empty_of_mem s.text_ne_empty
  have hlines : ((block body).lines c).map (Line.print c.settings depth)
      = (body.map fun s => (s.lines c).map (Line.print c.settings depth)).flatten := by
    rw [lines, linesAll_eq, List.map_flatMap, List.flatMap_def]
  rw [render, Line.printAll, hlines, (Text.join_preceded_flatten hfilled).1, List.map_map]
  rfl

/-- A statement in braces that begin in a line of the depth, with its text one level deeper. -/
def inBraces (c : Context) (depth : Nat) (s : Statement) : String :=
  Render.braces (c.settings.indentation depth) (s.render c (depth + 1))

/-- The text of an alternate. Only what is not a branch is put in braces. -/
def alternateText (c : Context) (depth : Nat) : Statement → String
  | branch condition consequent none =>
    "if (" ++ condition.render c ++ ") " ++ consequent.inBraces c depth
  | branch condition consequent (some alternate) =>
    "if (" ++ condition.render c ++ ") " ++ consequent.inBraces c depth
      ++ (" else " ++ alternate.alternateText c depth)
  | s => s.inBraces c depth

/-- The text behind the brace that closes the consequent of a branch. -/
def elseText (c : Context) (depth : Nat) : Option Statement → String
  | none => ""
  | some alternate => " else " ++ alternate.alternateText c depth

theorem alternateText_branch (condition : Expression) (consequent : Statement)
    (alternate : Option Statement) : (branch condition consequent alternate).alternateText c depth
      = "if (" ++ condition.render c ++ ") " ++ consequent.inBraces c depth
        ++ elseText c depth alternate := by
  cases alternate with
  | none => exact String.append_empty.symm
  | some alternate => rfl

theorem alternateText_of_not_branch {s : Statement} (h : s.isBranch = false) :
    s.alternateText c depth = s.inBraces c depth := by
  cases s with
  | branch => exact absurd h (by simp [isBranch])
  | _ => rfl

private theorem render_of_braced {opening rest : String} {body s : Statement} {below : List Line}
    (hlines : s.lines c = Line.braced opening (body.lines c) below)
    (hbelow : Text.preceded "\n" (below.map (Line.print c.settings depth))
      = "\n" ++ c.settings.indentation depth ++ "\x7d" ++ rest) :
    s.render c depth
      = c.settings.indentation depth ++ opening ++ body.inBraces c depth ++ rest := by
  rw [render, hlines, Line.printAll_braced opening body.text_ne_empty hbelow]
  rfl

/-- The lines from the brace that closes a consequent, by induction on the alternate. -/
theorem preceded_closing (alternate : Option Statement) :
    Text.preceded "\n" ((closing c alternate).map (Line.print c.settings depth))
      = "\n" ++ c.settings.indentation depth ++ "\x7d" ++ elseText c depth alternate := by
  have helse : "\x7d else " = "\x7d" ++ " else " := rfl
  cases alternate with
  | none => exact Line.preceded_close
  | some s =>
    induction s with
    | branch condition consequent alternate _ ih =>
      have hclosing : Text.preceded "\n" ((closing c alternate).map (Line.print c.settings depth))
          = "\n" ++ c.settings.indentation depth ++ "\x7d" ++ elseText c depth alternate := by
        cases alternate with
        | none => exact Line.preceded_close
        | some alternate => exact ih alternate rfl
      rw [closing, otherwise, isBranch, if_pos rfl, lines_branch, Line.lead_braced,
        Line.preceded_braced, Line.printAll_braced _ consequent.text_ne_empty hclosing, elseText,
        alternateText_branch, inBraces, render, helse]
      simp only [String.append_assoc]
    | _ =>
      rw [closing, otherwise, if_neg (by simp [isBranch]), Line.preceded_braced,
        Line.printAll_braced _ (text_ne_empty _) Line.preceded_close, elseText,
        alternateText_of_not_branch rfl, inBraces, render, helse]
      simp only [String.append_assoc, String.append_empty]

theorem render_branch (condition : Expression) (consequent : Statement)
    (alternate : Option Statement) : (branch condition consequent alternate).render c depth
      = c.settings.indentation depth
        ++ (branch condition consequent alternate).alternateText c depth := by
  rw [render_of_braced (lines_branch condition consequent alternate) (preceded_closing alternate),
    alternateText_branch]
  simp only [String.append_assoc]

theorem render_forLoop (init condition update : Option Expression) (body : Statement) :
    (forLoop init condition update body).render c depth = c.settings.indentation depth
      ++ ("for (" ++ clause c init ++ "; " ++ clause c condition ++ "; " ++ clause c update ++ ") ")
      ++ body.inBraces c depth := by
  rw [render_of_braced rfl Line.preceded_close, String.append_empty]

theorem render_whileLoop (condition : Expression) (body : Statement) :
    (whileLoop condition body).render c depth = c.settings.indentation depth
      ++ ("while (" ++ condition.render c ++ ") ") ++ body.inBraces c depth := by
  rw [render_of_braced rfl Line.preceded_close, String.append_empty]

end Statement

end Advisor
