import Advisor.Proofs.Render.Hole

/-!
# What fills a hole

The text of a statement with a hole is fixed but for the text of what fills the hole and one blank in
front of it. The blank is there exactly if the hole directly follows a leading operator that ends in
a sign and the text begins with the same sign.
-/

namespace Advisor

namespace Render

/-- The operator ends in the sign with which the text begins. -/
def SignsMeet (operator text : String) : Prop :=
  ∃ sign, (sign = '-' ∨ sign = '+') ∧ operator.toList.getLast? = some sign ∧
    text.toList.head? = some sign

private theorem gap_of_signsMeet {operator text : String} (h : SignsMeet operator text) :
    gap operator text = " " := by
  obtain ⟨sign, hsign, hlast, hhead⟩ := h
  unfold gap
  rw [hlast, hhead]
  exact if_pos ⟨rfl, hsign⟩

private theorem gap_of_not_signsMeet {operator text : String} (h : ¬ SignsMeet operator text) :
    gap operator text = "" := by
  unfold gap
  split
  · next last first hlast hhead =>
    refine if_neg ?_
    rintro ⟨rfl, hsign⟩
    exact h ⟨last, hsign, hlast, hhead⟩
  · rfl

private theorem not_signsMeet_marker (operator kind : String) :
    ¬ SignsMeet operator ("/* Unsupported expression: " ++ kind ++ " */") := by
  rintro ⟨sign, hsign, -, hhead⟩
  have hslash : ("/* Unsupported expression: " ++ kind ++ " */").toList.head? = some '/' := by
    simp
  rw [hslash] at hhead
  obtain rfl := Option.some.inj hhead
  exact absurd hsign (by decide)

private theorem gap_empty (text : String) : gap "" text = "" := rfl

end Render

namespace Expression.Frame

/-- The leading operator that the place of the frame directly follows, where the frame itself directly
follows the outer one. An operator without characters is none. -/
def operator (outer : String) : Frame → String
  | operand op true => if op = "" then outer else op
  | operand _ false | target _ _ | array _ => outer
  | _ => ""

/-- A frame writes nothing in front of its place, which then follows what the frame follows, or it
writes a text there that ends in the operator which the place follows. -/
theorem before_cases (c : Context) (frame : Frame) (outer : String) :
    (frame.before c = "" ∧ frame.operator outer = outer ∧ ∀ text, frame.gap text = "") ∨
    (frame.before c ≠ "" ∧ (∃ front, frame.before c = front ++ frame.operator outer) ∧
      ∀ text, frame.gap text = Render.gap (frame.operator outer) text) := by
  have hwritten (text : String) : ∃ front, text = front ++ "" :=
    ⟨text, String.append_empty.symm⟩
  cases frame with
  | operand op leading =>
    cases leading with
    | false => exact .inl ⟨rfl, rfl, fun _ => rfl⟩
    | true =>
      by_cases hop : op = ""
      · subst hop
        exact .inl ⟨rfl, rfl, Render.gap_empty⟩
      · have hoperator : (operand op true).operator outer = op := if_neg hop
        rw [hoperator]
        exact .inr ⟨hop, ⟨"", String.empty_append.symm⟩, fun _ => rfl⟩
  | target op r => exact .inl ⟨rfl, rfl, fun _ => rfl⟩
  | array i => exact .inl ⟨rfl, rfl, fun _ => rfl⟩
  | _ => exact .inr ⟨by simp [before], hwritten _, Render.gap_empty⟩

private theorem exists_gap_fill (c : Context) (frame : Frame) (outer : String) :
    ∃ pre, (∃ front, outer ++ pre = front ++ frame.operator outer) ∧
      ∀ e, e.render c ≠ "" →
        Render.gap outer ((frame.fill e).render c) ++ (frame.fill e).render c
          = pre ++ (Render.gap (frame.operator outer) (e.render c) ++ e.render c)
            ++ frame.after c := by
  rcases frame.before_cases c outer with ⟨hbefore, hoperator, hgap⟩ | ⟨hbefore, ⟨front, hfront⟩, hgap⟩
  · refine ⟨"", ⟨"", by rw [hoperator, String.append_empty, String.empty_append]⟩, fun e he => ?_⟩
    rw [render_fill, hbefore, hgap, hoperator, String.empty_append, String.empty_append,
      String.empty_append, Render.gap_append _ he, String.append_assoc]
  · refine ⟨Render.gap outer (frame.before c) ++ frame.before c,
      ⟨outer ++ Render.gap outer (frame.before c) ++ front, ?_⟩, fun e _ => ?_⟩
    · rw [hfront]
      simp only [String.append_assoc]
    · rw [render_fill, hgap]
      simp only [String.append_assoc, Render.gap_append _ hbefore]

private theorem render_foldr_ne_empty {c : Context} {e : Expression} (frames : List Frame)
    (he : e.render c ≠ "") : (frames.foldr fill e).render c ≠ "" := by
  obtain ⟨pre, post, htext⟩ := exists_render_foldr c frames
  obtain ⟨blank, -, he'⟩ := htext e
  rw [he']
  simp [he]

/-- The leading operator that the innermost place directly follows. -/
def lastOperator (outer : String) (frames : List Frame) : String := frames.foldl operator outer

/-- What the frames write around the innermost place, by induction from the outside. -/
theorem exists_gap_foldr (c : Context) (frames : List Frame) (outer : String) :
    ∃ pre post, (∃ front, outer ++ pre = front ++ lastOperator outer frames) ∧
      ∀ e, e.render c ≠ "" →
        Render.gap outer ((frames.foldr fill e).render c) ++ (frames.foldr fill e).render c
          = pre ++ (Render.gap (lastOperator outer frames) (e.render c) ++ e.render c) ++ post := by
  induction frames generalizing outer with
  | nil =>
    refine ⟨"", "", ⟨"", by simp [lastOperator]⟩, fun e _ => ?_⟩
    simp [lastOperator]
  | cons frame frames ih =>
    obtain ⟨pre, ⟨front, hfront⟩, hstep⟩ := frame.exists_gap_fill c outer
    obtain ⟨pre', post, ⟨front', hfront'⟩, hrest⟩ := ih (frame.operator outer)
    refine ⟨pre ++ pre', post ++ frame.after c, ⟨front ++ front', ?_⟩, fun e he => ?_⟩
    · rw [← String.append_assoc, hfront, String.append_assoc, hfront', String.append_assoc]
      rfl
    · rw [List.foldr_cons, hstep _ (render_foldr_ne_empty frames he), hrest e he]
      simp only [String.append_assoc]
      rfl

end Expression.Frame

namespace Hole

/-- The leading operator that the hole directly follows, empty if there is none. -/
def operator (h : Hole) : String := Expression.Frame.lastOperator "" h.expressions

private theorem exists_render_fill (c : Context) (h : Hole) (depth : Nat) :
    ∃ pre post, (∃ front, pre = front ++ h.operator) ∧
      ∀ e : Expression, e.render c ≠ "" → (h.fill e).render c depth
        = pre ++ Render.gap h.operator (e.render c) ++ e.render c ++ post := by
  obtain ⟨before, after, hstatement⟩ := (embeds c h.statements h.place).printAll c.settings depth
  obtain ⟨pre, post, ⟨front, hfront⟩, hexpression⟩ :=
    Expression.Frame.exists_gap_foldr c h.expressions ""
  rw [String.empty_append] at hfront
  refine ⟨before ++ pre, post ++ after, ⟨before ++ front, ?_⟩, fun e he => ?_⟩
  · rw [hfront, String.append_assoc]
    rfl
  · have htext := hexpression e he
    rw [Render.gap_empty, String.empty_append] at htext
    rw [Statement.render, fill_eq, hstatement, htext]
    simp only [String.append_assoc]
    rfl

/-- What fills a hole of a statement is written in one place of its text, with a blank in front of it
exactly if it begins with the sign of the operator there. A node that is not supported is written as
its marker, and nothing around it changes. Every expression in a statement fills such a hole. -/
theorem written_in_place (c : Context) (depth : Nat) :
    (∀ h : Hole, ∃ pre post, (∃ front, pre = front ++ h.operator) ∧
      (∀ e : Expression, e.render c ≠ "" → ∃ blank,
        (h.fill e).render c depth = pre ++ blank ++ e.render c ++ post ∧
          (blank = "" ∧ ¬ Render.SignsMeet h.operator (e.render c) ∨
            blank = " " ∧ Render.SignsMeet h.operator (e.render c))) ∧
      ∀ kind, (h.fill (.unsupported kind)).render c depth
        = pre ++ ("/* Unsupported expression: " ++ kind ++ " */") ++ post) ∧
    ∀ s : Statement, ∀ n ∈ s.nodes, ∀ e ∈ n.expressions, ∀ o ∈ e.nodes,
      ∃ h : Hole, s = h.fill o := by
  refine ⟨fun h => ?_, fun s n hn e he o ho => exists_fill hn he ho⟩
  obtain ⟨pre, post, hfront, htext⟩ := h.exists_render_fill c depth
  refine ⟨pre, post, hfront, fun e he => ⟨_, htext e he, ?_⟩, fun kind => ?_⟩
  · by_cases hmeet : Render.SignsMeet h.operator (e.render c)
    · exact .inr ⟨Render.gap_of_signsMeet hmeet, hmeet⟩
    · exact .inl ⟨Render.gap_of_not_signsMeet hmeet, hmeet⟩
  · have hmarker : (Expression.unsupported kind).render c
        = "/* Unsupported expression: " ++ kind ++ " */" := by
      rw [Expression.render, Render.marker]
    have hne : (Expression.unsupported kind).render c ≠ "" := by
      rw [hmarker]
      simp
    rw [htext _ hne, hmarker, Render.gap_of_not_signsMeet (Render.not_signsMeet_marker _ kind),
      String.append_empty]

/-- The hole behind the sign in `let step = -_[i];`, inside a loop in the alternate of a branch. -/
def stepHole : Hole :=
  ⟨[.alternate (.identifier "done") (.block []), .member [.breaks] [],
    .whileBody (.identifier "ready")], .initial "step" "double" false,
    [.operand "-" true, .array (.identifier "i")]⟩

/-- A sign in the hole is kept apart from the one in front of it; a marker is not. -/
theorem stepHole_written :
    (Expression.unary "-" true (.identifier "gap")).render ⟨⟨[], [], []⟩, Settings.standard⟩ ≠ "" ∧
    ∃ pre post, (∃ front, pre = front ++ "-") ∧
      (stepHole.fill (.unary "-" true (.identifier "gap"))).render
          ⟨⟨[], [], []⟩, Settings.standard⟩ 1 = pre ++ " " ++ "-gap" ++ post ∧
      (stepHole.fill (.unsupported "CastExpression")).render ⟨⟨[], [], []⟩, Settings.standard⟩ 1
        = pre ++ "/* Unsupported expression: CastExpression */" ++ post := by
  have htext : (Expression.unary "-" true (.identifier "gap")).render
      ⟨⟨[], [], []⟩, Settings.standard⟩ = "-gap" := by decide +kernel
  have hne : (Expression.unary "-" true (.identifier "gap")).render
      ⟨⟨[], [], []⟩, Settings.standard⟩ ≠ "" := by
    rw [htext]
    decide
  have hmeet : Render.SignsMeet "-" "-gap" := ⟨'-', .inl rfl, rfl, rfl⟩
  have hoperator : stepHole.operator = "-" := rfl
  obtain ⟨pre, post, hfront, hfilled, hmarker⟩ :=
    (written_in_place ⟨⟨[], [], []⟩, Settings.standard⟩ 1).1 stepHole
  obtain ⟨blank, hstep, hblank⟩ := hfilled _ hne
  rw [htext, hoperator] at hblank
  obtain rfl : blank = " " := by
    rcases hblank with ⟨-, happart⟩ | ⟨hblank, -⟩
    · exact absurd hmeet happart
    · exact hblank
  rw [htext] at hstep
  exact ⟨hne, pre, post, hfront, hstep, hmarker "CastExpression"⟩

end Hole

end Advisor
