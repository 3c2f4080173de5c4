import Advisor.Proofs.JavaScript.Reader

/-!
# Expressions with the same text

Expressions that the reader gets back from their tokens have the same text only if they are the
same, up to numbers that are written alike.
-/

namespace Advisor

open JavaScript

namespace Expression

variable {c : Context} {e e' : Expression}

private theorem renderAll_eq_of_shapes_eq {es es' : List Expression}
    (ih : ∀ e ∈ es, ∀ e' : Expression, e.shape = e'.shape → e.render c = e'.render c)
    (h : shapes es = shapes es') : renderAll c es = renderAll c es' := by
  induction es generalizing es' with
  | nil =>
    cases es' with
    | nil => rfl
    | cons e' es' => simp [shapes] at h
  | cons e es hrest =>
    cases es' with
    | nil => simp [shapes] at h
    | cons e' es' =>
      obtain ⟨hhead, htail⟩ := List.cons.inj h
      rw [renderAll, renderAll, ih e List.mem_cons_self e' hhead,
        hrest (fun f hf => ih f (List.mem_cons_of_mem e hf)) htail]

private theorem render_eq_of_shape_eq (h : e.shape = e'.shape) : e.render c = e'.render c := by
  induction e generalizing e' with
  | number | text | boolean | identifier | unsupported =>
    cases e' <;> simp_all [shape, render]
  | binary operator left right ihl ihr =>
    cases e' with
    | binary operator' left' right' =>
      obtain ⟨rfl, hl, hr⟩ := Shape.binary.inj h
      rw [render, render, ihl hl, ihr hr]
    | _ => simp [shape] at h
  | unary operator leading operand ih =>
    cases e' with
    | unary operator' leading' operand' =>
      obtain ⟨rfl, rfl, hoperand⟩ := Shape.unary.inj h
      cases leading <;> rw [render, render, ih hoperand]
    | _ => simp [shape] at h
  | assignment operator left right ihl ihr =>
    cases e' with
    | assignment operator' left' right' =>
      obtain ⟨rfl, hl, hr⟩ := Shape.assignment.inj h
      rw [render, render, ihl hl, ihr hr]
    | _ => simp [shape] at h
  | conditional condition consequent alternate ihc ihl ihr =>
    cases e' with
    | conditional condition' consequent' alternate' =>
      obtain ⟨hc, hl, hr⟩ := Shape.conditional.inj h
      rw [render, render, ihc hc, ihl hl, ihr hr]
    | _ => simp [shape] at h
  | call callee arguments ih =>
    cases e' with
    | call callee' arguments' =>
      obtain ⟨rfl, harguments⟩ := Shape.call.inj h
      rw [render, render, renderAll_eq_of_shapes_eq (fun e he e' h => ih e he h) harguments]
    | _ => simp [shape] at h
  | element array index iha ihi =>
    cases e' with
    | element array' index' =>
      obtain ⟨ha, hi⟩ := Shape.element.inj h
      rw [render, render, iha ha, ihi hi]
    | _ => simp [shape] at h

/-- The expression can be read from its text. -/
structure Legible (c : Context) (e : Expression) : Prop where
  wellFormed : e.WellFormed
  kinds : ∀ kind ∈ e.kinds, ¬ ['*', '/'] <:+: kind.toList
  plain : ∀ n ∈ e.nodes, n.Plain c

/-- A number with a minus sign is written as the sign in front of its magnitude is, negative zero
too, so it is not plain. -/
theorem render_negative {x y : Binary64} (hx : x.negative = false) (hfinite : x.isFinite = true)
    (hy : y.negative = true) (h : x.magnitude = y.magnitude) :
    (number y).render c = (unary "-" true (number x)).render c := by
  have hnan : x.isNaN = false := by
    simp only [Binary64.isFinite, Binary64.isNaN, decide_eq_true_eq, decide_eq_false_iff_not]
      at hfinite ⊢
    omega
  have hdigits : ∃ d more, (Render.number x).toList = d :: more ∧ d.isDigit = true := by
    rw [Render.number]
    simp only [hx, hnan, hfinite]
    by_cases hzero : x.magnitude = 0
    · simp [hzero]
    · simpa [hzero] using positional_cons _
  have hgap : Render.gap "-" (Render.number x) = "" := by
    obtain ⟨d, more, hnumber, hd⟩ := hdigits
    have hne : '-' ≠ d := by
      rintro rfl
      exact absurd hd (by decide)
    simp [Render.gap, hnumber, hne]
  have hsigned : Render.number y = "-" ++ Render.number x := by
    simp only [Binary64.isNaN, Binary64.isFinite] at hnan hfinite
    simp only [Render.number, Binary64.isNaN, Binary64.isFinite, ← h, hx, hy, hnan, hfinite]
    by_cases hzero : x.magnitude = 0 <;> simp [hzero]
  rw [render, render, render, hgap, hsigned]
  simp

/-- Where two legible expressions have the same text, they are the same up to how their numbers are
spelled. -/
theorem render_eq_iff_shape_eq (h : e.Legible c) (h' : e'.Legible c) :
    e.render c = e'.render c ↔ e.shape = e'.shape := by
  refine ⟨fun htext => ?_, render_eq_of_shape_eq⟩
  have hread {e : Expression} (h : e.Legible c) :
      run (.front [.argument "" []]) (scan (e.render c).toList ++ [.mark [')']])
        = some (.behind [] (.call "" [e.shape])) := by
    have hscan := scans_render (c := c) h.wellFormed h.kinds [] stops_nil
    have hends : EndsBefore [.argument "" []] [.mark [')']] e :=
      endsBefore_closing trivial (by decide)
    rw [List.append_nil, scan_nil, List.append_nil] at hscan
    rw [hscan, reads_tokens (fun n hn => ⟨h.wellFormed n hn, h.plain n hn⟩) _ _ hends]
    rfl
  have hsame := (hread h).symm.trans (htext ▸ hread h')
  simpa using hsame

/-- The assignment `x = max(signed, a[1])` of a script. -/
def assignMax (signed : Expression) : Expression :=
  .assignment "=" (.identifier "x")
    (.call "max" [signed, .element (.identifier "a") (.number ⟨0x3ff0000000000000⟩)])

/-- In it two minus signs and a decrement are told apart. -/
theorem signs_apart :
    (assignMax (.unary "-" true (.unary "-" true (.identifier "y")))).Legible bareContext
    ∧ (assignMax (.unary "--" true (.identifier "y"))).Legible bareContext
    ∧ (assignMax (.unary "-" true (.unary "-" true (.identifier "y")))).render bareContext
      ≠ (assignMax (.unary "--" true (.identifier "y"))).render bareContext := by
  have hnames : ∀ name ∈ ["x", "y", "a", "max"], name ∉ literalWords ∧ Host.constant? name = none
      ∧ Host.function? name = none := by
    decide +kernel
  have hnumber : Binary64.negative ⟨0x3ff0000000000000⟩ = false
      ∧ Binary64.isFinite ⟨0x3ff0000000000000⟩ = true := by
    decide
  simp only [List.forall_mem_cons] at hnames
  obtain ⟨hx, hy, ha, hmax, -⟩ := hnames
  have hsigns : (assignMax (.unary "-" true (.unary "-" true (.identifier "y")))).Legible
      bareContext := by
    refine ⟨by decide, List.forall_mem_nil _, ?_⟩
    simp [assignMax, nodes, nodesAll, Plain, tightOperands, isAssignment, isUnary, *]
  have hdecrement : (assignMax (.unary "--" true (.identifier "y"))).Legible bareContext := by
    refine ⟨by decide, List.forall_mem_nil _, ?_⟩
    simp [assignMax, nodes, nodesAll, Plain, tightOperands, isAssignment, isUnary, *]
  refine ⟨hsigns, hdecrement, fun htext => ?_⟩
  have hshape := (render_eq_iff_shape_eq hsigns hdecrement).mp htext
  simp [assignMax, shape, shapes] at hshape

end Expression

end Advisor
