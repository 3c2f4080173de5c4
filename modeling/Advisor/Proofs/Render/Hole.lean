import Advisor.Proofs.Script.Hole
import Advisor.Render.Statement

/-!
# Holes in the text

What fills a hole is rendered in one place. The text around that place does not depend on it, but
for one blank that keeps a sign apart from a leading operator in front of the hole.
-/

namespace Advisor

namespace Text

/-- The texts, each with the separator behind it. -/
def followed (separator : String) : List String → String
  | [] => ""
  | s :: rest => s ++ separator ++ followed separator rest

/-- The texts, each with the separator in front of it. -/
def preceded (separator : String) : List String → String
  | [] => ""
  | s :: rest => separator ++ s ++ preceded separator rest

theorem join_cons (separator s : String) (rest : List String) :
    join separator (s :: rest) = s ++ preceded separator rest := by
  induction rest generalizing s with
  | nil => simp [join, preceded]
  | cons t rest ih => rw [join, ih, preceded, String.append_assoc, String.append_assoc]

theorem join_append (separator s : String) (before after : List String) :
    join separator (before ++ s :: after)
      = followed separator before ++ s ++ preceded separator after := by
  induction before with
  | nil => rw [List.nil_append, join_cons, followed, String.empty_append]
  | cons t before ih =>
    rw [List.cons_append, join_cons, followed]
    cases before with
    | nil => simp [preceded, followed, String.append_assoc]
    | cons u before =>
      rw [List.cons_append, join_cons] at ih
      simp only [List.cons_append, preceded, String.append_assoc, ih]

end Text

namespace Render

theorem gap_append {operator s : String} (t : String) (h : s ≠ "") :
    gap operator (s ++ t) = gap operator s := by
  have hs : s.toList ≠ [] := fun hnil => h (String.toList_inj.mp hnil)
  obtain ⟨d, more, hcons⟩ := List.exists_cons_of_ne_nil hs
  unfold gap
  rw [String.toList_append, hcons]
  rfl

private theorem gap_blank (operator t : String) : gap operator (" " ++ t) = "" := by
  have hhead : (" " ++ t).toList.head? = some ' ' := by simp
  unfold gap
  rw [hhead]
  grind

end Render

namespace Expression

namespace Frame

def before (c : Context) : Frame → String
  | left _ _ => "("
  | right op l => "(" ++ l.render c ++ " " ++ op ++ " "
  | operand op true => op
  | operand _ false => ""
  | target _ _ => ""
  | source op l => l.render c ++ " " ++ op ++ " "
  | condition _ _ => "("
  | consequent x _ => "(" ++ x.render c ++ " ? "
  | alternate x a => "(" ++ x.render c ++ " ? " ++ a.render c ++ " : "
  | argument callee es _ => c.callee callee ++ "(" ++ Text.followed ", " (renderAll c es)
  | array _ => ""
  | index a => a.render c ++ "["

def after (c : Context) : Frame → String
  | left op r => " " ++ op ++ " " ++ r.render c ++ ")"
  | right _ _ => ")"
  | operand _ true => ""
  | operand op false => op
  | target op r => " " ++ op ++ " " ++ r.render c
  | source _ _ => ""
  | condition a b => " ? " ++ a.render c ++ " : " ++ b.render c ++ ")"
  | consequent _ b => " : " ++ b.render c ++ ")"
  | alternate _ _ => ")"
  | argument _ _ es => Text.preceded ", " (renderAll c es) ++ ")"
  | array i => "[" ++ i.render c ++ "]"
  | index _ => "]"

def gap : Frame → String → String
  | operand op true, s => Render.gap op s
  | _, _ => ""

theorem render_fill (c : Context) (frame : Frame) (e : Expression) :
    (frame.fill e).render c
      = frame.before c ++ frame.gap (e.render c) ++ e.render c ++ frame.after c := by
  cases frame with
  | operand op leading =>
    cases leading <;> simp [fill, Expression.render, before, gap, after]
  | argument callee bs es =>
    simp only [fill, Expression.render, before, gap, after, renderAll_eq, List.map_append,
      List.map_cons, Text.join_append]
    simp only [String.append_assoc, String.append_empty]
  | _ => simp [fill, Expression.render, before, gap, after, String.append_assoc]

theorem gap_mem (frame : Frame) (text : String) : frame.gap text ∈ ["", " "] := by
  unfold gap
  split
  · exact Render.gap_mem _ _
  · simp

theorem gap_append (frame : Frame) {s : String} (t : String) (h : s ≠ "") :
    frame.gap (s ++ t) = frame.gap s := by
  unfold gap
  split
  · exact Render.gap_append t h
  · rfl

private theorem gap_blank (frame : Frame) (t : String) : frame.gap (" " ++ t) = "" := by
  unfold gap
  split
  · exact Render.gap_blank _ t
  · rfl

/-- Where frames are filled, only the blank in front of the place depends on what fills it. -/
theorem exists_render_foldr (c : Context) (frames : List Frame) :
    ∃ pre post, ∀ e, ∃ blank ∈ ["", " "],
      (frames.foldr fill e).render c = pre ++ blank ++ e.render c ++ post := by
  induction frames with
  | nil => exact ⟨"", "", fun e => ⟨"", by simp, by simp⟩⟩
  | cons frame frames ih =>
    obtain ⟨pre, post, hinner⟩ := ih
    by_cases hpre : pre = ""
    · refine ⟨frame.before c, post ++ frame.after c, fun e => ?_⟩
      obtain ⟨blank, hblank, htext⟩ := hinner e
      rw [hpre, String.empty_append] at htext
      rw [List.foldr_cons, render_fill, htext]
      obtain rfl | rfl : blank = "" ∨ blank = " " := by simpa using hblank
      · refine ⟨_, frame.gap_mem (e.render c ++ post), ?_⟩
        simp [String.append_assoc]
      · refine ⟨" ", by simp, ?_⟩
        simp [String.append_assoc, gap_blank]
    · refine ⟨frame.before c ++ frame.gap pre ++ pre, post ++ frame.after c, fun e => ?_⟩
      obtain ⟨blank, hblank, htext⟩ := hinner e
      refine ⟨blank, hblank, ?_⟩
      have hgap : frame.gap (pre ++ (blank ++ (e.render c ++ post))) = frame.gap pre :=
        frame.gap_append _ hpre
      rw [List.foldr_cons, render_fill, htext]
      simp only [String.append_assoc, hgap]

end Frame

end Expression

/-- The lines have the text of the expression in one place of one of them. -/
def Embeds (c : Context) (ls : Expression → List Line) : Prop :=
  ∃ above level pre post below, ∀ e, ls e = above ++ ⟨level, pre ++ e.render c ++ post⟩ :: below

namespace Embeds

variable {c : Context} {ls : Expression → List Line}

theorem append (h : Embeds c ls) (before after : List Line) :
    Embeds c (fun e => before ++ ls e ++ after) := by
  obtain ⟨above, level, pre, post, below, hls⟩ := h
  exact ⟨before ++ above, level, pre, post, below ++ after, fun e => by simp [hls]⟩

theorem deeper (h : Embeds c ls) : Embeds c (fun e => (ls e).map Line.deeper) := by
  obtain ⟨above, level, pre, post, below, hls⟩ := h
  exact ⟨above.map Line.deeper, level + 1, pre, post, below.map Line.deeper,
    fun e => by simp [hls, Line.deeper]⟩

theorem braced (h : Embeds c ls) (opening : String) (closing : List Line) :
    Embeds c (fun e => Line.braced opening (ls e) closing) :=
  h.deeper.append [⟨0, opening ++ "\x7b"⟩] closing

theorem lead (h : Embeds c ls) (text : String) : Embeds c (fun e => Line.lead text (ls e)) := by
  obtain ⟨above, level, pre, post, below, hls⟩ := h
  cases above with
  | nil =>
    exact ⟨[], level, text ++ pre, post, below,
      fun e => by simp [hls, Line.lead, String.append_assoc]⟩
  | cons l above =>
    exact ⟨⟨l.level, text ++ l.text⟩ :: above, level, pre, post, below,
      fun e => by simp [hls, Line.lead]⟩

theorem otherwise (h : Embeds c ls) {alternate : Expression → Statement} {isBranch : Bool}
    (halternate : ∀ e, (alternate e).isBranch = isBranch) :
    Embeds c (fun e => Statement.otherwise (alternate e) (ls e)) := by
  cases isBranch with
  | true =>
    simp only [Statement.otherwise, halternate, if_true]
    exact h.lead _
  | false =>
    simp only [Statement.otherwise, halternate, Bool.false_eq_true, if_false]
    exact h.braced _ _

theorem printAll (h : Embeds c ls) (s : Settings) (depth : Nat) :
    ∃ pre post, ∀ e, Line.printAll s depth (ls e) = pre ++ e.render c ++ post := by
  obtain ⟨above, level, pre, post, below, hls⟩ := h
  refine ⟨Text.followed "\n" (above.map (Line.print s depth)) ++ s.indentation (depth + level) ++ pre,
    post ++ Text.preceded "\n" (below.map (Line.print s depth)), fun e => ?_⟩
  rw [hls, Line.printAll, List.map_append, List.map_cons, Text.join_append, Line.print]
  simp only [String.append_assoc]

end Embeds

namespace Statement

variable {c : Context}

private theorem Place.exists_lines_fill (c : Context) (place : Place) :
    ∃ pre post below, ∀ e, (place.fill e).lines c = ⟨0, pre ++ e.render c ++ post⟩ :: below := by
  have hbraced (pre text post : String) (body closing : List Line) :
      Line.braced (pre ++ text ++ post) body closing
        = ⟨0, pre ++ text ++ (post ++ "\x7b")⟩ :: (body.map Line.deeper ++ closing) := by
    rw [Line.braced, String.append_assoc]
  cases place with
  | condition a b =>
    cases b with
    | none => exact ⟨"if (", _, _, fun e => by rw [fill, lines, hbraced]⟩
    | some b => exact ⟨"if (", _, _, fun e => by rw [fill, lines, hbraced]⟩
  | forInit test update body =>
    refine ⟨"for (", "; " ++ clause c test ++ "; " ++ clause c update ++ ") " ++ "\x7b",
      (body.lines c).map Line.deeper ++ Line.close, fun e => ?_⟩
    rw [fill, lines, Line.braced]
    simp only [clause, String.append_assoc]
  | forCondition init update body =>
    refine ⟨"for (" ++ clause c init ++ "; ", "; " ++ clause c update ++ ") " ++ "\x7b",
      (body.lines c).map Line.deeper ++ Line.close, fun e => ?_⟩
    rw [fill, lines, Line.braced]
    simp only [clause, String.append_assoc]
  | forUpdate init test body =>
    refine ⟨"for (" ++ clause c init ++ "; " ++ clause c test ++ "; ", ") " ++ "\x7b",
      (body.lines c).map Line.deeper ++ Line.close, fun e => ?_⟩
    rw [fill, lines, Line.braced]
    simp only [clause, String.append_assoc]
  | whileCondition body => exact ⟨"while (", _, _, fun e => by rw [fill, lines, hbraced]⟩
  | returned => exact ⟨"return ", ";", [], fun e => rfl⟩
  | evaluated => exact ⟨"", ";", [], fun e => by simp [fill, lines]⟩
  | initial name type isInput =>
    exact ⟨"let " ++ name ++ " = ", ";", [], fun e => rfl⟩

end Statement

namespace Hole

variable {c : Context}

private theorem isBranch_fill (h : Hole) (e f : Expression) :
    (h.fill e).isBranch = (h.fill f).isBranch := by
  obtain ⟨statements, place, expressions⟩ := h
  cases statements with
  | nil => cases place <;> rfl
  | cons frame statements => cases frame <;> rfl

/-- The lines of a filled statement, by induction on the statements around the place. -/
theorem embeds (c : Context) (statements : List Statement.Frame) (place : Statement.Place) :
    Embeds c (fun e => ((Hole.mk statements place []).fill e).lines c) := by
  induction statements with
  | nil =>
    obtain ⟨pre, post, below, hplace⟩ := place.exists_lines_fill c
    exact ⟨[], 0, pre, post, below, hplace⟩
  | cons frame statements ih =>
    cases frame with
    | member before after =>
      have hlines (e : Expression) :
          ((Hole.mk (.member before after :: statements) place []).fill e).lines c
            = Statement.linesAll c before
              ++ ((Hole.mk statements place []).fill e).lines c
              ++ Statement.linesAll c after := by
        simp [fill, Statement.Frame.fill, Statement.lines, Statement.linesAll_eq]
      simp only [hlines]
      exact ih.append _ _
    | consequent x b =>
      cases b with
      | none => exact ih.braced ("if (" ++ x.render c ++ ") ") Line.close
      | some b =>
        exact ih.braced ("if (" ++ x.render c ++ ") ") (Statement.otherwise b (b.lines c))
    | alternate x a =>
      have hotherwise := ih.otherwise
        (fun e => isBranch_fill ⟨statements, place, []⟩ e (.boolean true))
      have hlines (e : Expression) :
          ((Hole.mk (.alternate x a :: statements) place []).fill e).lines c
            = ⟨0, "if (" ++ x.render c ++ ") " ++ "\x7b"⟩ :: (a.lines c).map Line.deeper
              ++ Statement.otherwise ((Hole.mk statements place []).fill e)
                (((Hole.mk statements place []).fill e).lines c) ++ [] := by
        rw [List.append_nil]
        rfl
      simp only [hlines]
      exact hotherwise.append _ _
    | forBody init test update =>
      exact ih.braced ("for (" ++ Statement.clause c init ++ "; " ++ Statement.clause c test ++ "; "
        ++ Statement.clause c update ++ ") ") Line.close
    | whileBody x => exact ih.braced ("while (" ++ x.render c ++ ") ") Line.close

theorem fill_eq (h : Hole) (e : Expression) : h.fill e
    = (Hole.mk h.statements h.place []).fill (h.expressions.foldr Expression.Frame.fill e) := rfl

theorem exists_render_method (c : Context) (h : Hole) (f : Function) (depth : Nat) :
    ∃ pre post, ∀ e, ∃ blank ∈ ["", " "],
      Function.render c depth { f with body := h.fill e } = pre ++ blank ++ e.render c ++ post := by
  have hbody := (embeds c h.statements h.place).braced
    (f.name ++ "(" ++ Text.join ", " (f.parameters.map (·.name)) ++ ") ") Line.close
  obtain ⟨before, after, hmethod⟩ := hbody.printAll c.settings depth
  obtain ⟨pre, post, hexpression⟩ := Expression.Frame.exists_render_foldr c h.expressions
  refine ⟨before ++ pre, post ++ after, fun e => ?_⟩
  obtain ⟨blank, hblank, htext⟩ := hexpression e
  refine ⟨blank, hblank, ?_⟩
  rw [Function.render, Function.lines, fill_eq, hmethod, htext]
  simp only [String.append_assoc]

end Hole

end Advisor
