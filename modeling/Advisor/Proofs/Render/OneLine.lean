import Advisor.Proofs.JavaScript.Expression
import Advisor.Render.Statement

/-!
# One text, one line

An expression is rendered on one line, and so is each line of a statement, if no name, no operator
and no kind contains a line break: whatever else comes from the script is a string literal, which
writes its line breaks by letters.
-/

namespace Advisor

theorem append_cons_inj {α : Type} {P : α → Prop} {a b : α} {xs ys us vs : List α}
    (hxs : ∀ x ∈ xs, ¬ P x) (hys : ∀ y ∈ ys, ¬ P y) (ha : P a) (hb : P b)
    (h : xs ++ a :: us = ys ++ b :: vs) : xs = ys ∧ a = b ∧ us = vs := by
  induction xs generalizing ys with
  | nil =>
    cases ys with
    | nil => exact ⟨rfl, List.cons.inj h⟩
    | cons y ys =>
      obtain ⟨rfl, -⟩ := List.cons.inj h
      exact absurd ha (hys a List.mem_cons_self)
  | cons x xs ih =>
    cases ys with
    | nil =>
      obtain ⟨rfl, -⟩ := List.cons.inj h
      exact absurd hb (hxs x List.mem_cons_self)
    | cons y ys =>
      obtain ⟨rfl, htail⟩ := List.cons.inj h
      obtain ⟨rfl, hrest⟩ := ih (List.forall_mem_cons.mp hxs).2 (List.forall_mem_cons.mp hys).2 htail
      exact ⟨rfl, hrest⟩

/-- The text has no line break. -/
def OneLine (s : String) : Prop := '\n' ∉ s.toList

instance (s : String) : Decidable (OneLine s) := inferInstanceAs (Decidable (_ ∉ _))

@[simp] theorem oneLine_append {s t : String} : OneLine (s ++ t) ↔ OneLine s ∧ OneLine t := by
  simp [OneLine]

private theorem oneLine_join {separator : String} {texts : List String}
    (hseparator : OneLine separator)
    (h : ∀ s ∈ texts, OneLine s) : OneLine (Text.join separator texts) := by
  induction texts with
  | nil => exact List.not_mem_nil
  | cons s texts ih =>
    obtain ⟨hs, htexts⟩ := List.forall_mem_cons.mp h
    cases texts with
    | nil => exact hs
    | cons t texts =>
      rw [Text.join, oneLine_append, oneLine_append]
      exact ⟨⟨hs, hseparator⟩, ih htexts⟩

theorem append_newline_inj {xs ys us vs : List Char} (hxs : '\n' ∉ xs) (hys : '\n' ∉ ys)
    (h : xs ++ '\n' :: us = ys ++ '\n' :: vs) : xs = ys ∧ us = vs := by
  obtain ⟨hline, -, hrest⟩ := append_cons_inj (P := (· = '\n')) (fun x hx hend => hxs (hend ▸ hx))
    (fun y hy hend => hys (hend ▸ hy)) rfl rfl h
  exact ⟨hline, hrest⟩

theorem oneLine_of_isIdentifier {name : String} (h : Settings.isIdentifier name = true) :
    OneLine name :=
  fun hmem => absurd (JavaScript.continuesIdentifier_of_mem h hmem) (by decide)

namespace JavaScript

/-- The kind ends no comment, neither one that has to be closed nor one that ends with its line. -/
def Tame (kind : String) : Prop :=
  ¬ ['*', '/'] <:+: kind.toList ∧ ∀ d ∈ kind.toList, isLineEnd d = false

theorem Tame.oneLine {kind : String} (h : Tame kind) : OneLine kind := by
  intro hmem
  exact absurd (h.2 _ hmem) (by decide)

theorem tame_of_word {kind : String} (hkind : kind.toList.all Settings.continuesIdentifier = true) :
    Tame kind := by
  have h := List.all_eq_true.mp hkind
  refine ⟨not_infix_of_not_mem fun hmem => absurd (h _ hmem) (by decide), fun d hd => ?_⟩
  have hblank := isBlank_of_continuesIdentifier (h d hd)
  simp only [isBlank, Bool.or_eq_false_iff] at hblank
  exact hblank.2

end JavaScript

namespace Render

private theorem oneLine_number (x : Binary64) : OneLine (Render.number x) := by
  have hsign : OneLine (if x.negative then "-" else "") := by
    cases x.negative <;> decide
  rw [Render.number]
  split
  · decide
  split
  · exact oneLine_append.mpr ⟨hsign, by decide⟩
  split
  · exact oneLine_append.mpr ⟨hsign, by decide⟩
  · refine oneLine_append.mpr ⟨hsign, fun hmem => ?_⟩
    rw [String.toList_ofList] at hmem
    exact absurd (JavaScript.continuesNumber_of_mem_positional hmem) (by decide)

theorem lineBreak_not_mem_escape {e : Char} (he : e = '\n' ∨ e = '\r') (d : Char) :
    e ∉ escape d := by
  unfold escape
  split
  case h_6 hline hreturn _ =>
    rw [List.mem_singleton]
    rintro rfl
    exact he.elim hline hreturn
  all_goals rcases he with rfl | rfl <;> decide

private theorem oneLine_text (s : String) : OneLine (Render.text s) := by
  have hescape : '\n' ∉ s.toList.flatMap escape := by
    simp [lineBreak_not_mem_escape (.inl rfl)]
  simpa [OneLine, Render.text] using hescape

end Render

namespace Expression

/-- What the node itself writes as it stands in the script. -/
def verbatim : Expression → List String
  | identifier name => [name]
  | binary operator _ _ => [operator]
  | unary operator _ _ => [operator]
  | assignment operator _ _ => [operator]
  | call callee _ => [callee]
  | unsupported kind => [kind]
  | _ => []

def Unbroken (e : Expression) : Prop := ∀ n ∈ e.nodes, ∀ s ∈ n.verbatim, OneLine s

section

attribute [local simp] nodes verbatim

variable {operator name callee kind : String} {l r e : Expression} {es : List Expression}

@[simp] theorem unbroken_identifier : (identifier name).Unbroken ↔ OneLine name := by
  simp [Unbroken]

@[simp] theorem unbroken_binary :
    (binary operator l r).Unbroken ↔ OneLine operator ∧ l.Unbroken ∧ r.Unbroken := by
  simp [Unbroken, or_imp, forall_and]

@[simp] theorem unbroken_unary (leading : Bool) :
    (unary operator leading e).Unbroken ↔ OneLine operator ∧ e.Unbroken := by
  simp [Unbroken]

@[simp] theorem unbroken_assignment :
    (assignment operator l r).Unbroken ↔ OneLine operator ∧ l.Unbroken ∧ r.Unbroken := by
  simp [Unbroken, or_imp, forall_and]

@[simp] theorem unbroken_conditional :
    (conditional e l r).Unbroken ↔ e.Unbroken ∧ l.Unbroken ∧ r.Unbroken := by
  simp [Unbroken, or_imp, forall_and]

@[simp] theorem unbroken_call :
    (call callee es).Unbroken ↔ OneLine callee ∧ ∀ e ∈ es, e.Unbroken := by
  simp only [Unbroken, nodes, nodesAll_eq, List.forall_mem_cons, List.mem_flatMap, verbatim,
    List.not_mem_nil, false_implies, implies_true, and_true]
  refine and_congr Iff.rfl ⟨fun h e he n hn => h n ⟨e, he, hn⟩, ?_⟩
  rintro h n ⟨e, he, hn⟩
  exact h e he n hn

@[simp] theorem unbroken_element : (element l r).Unbroken ↔ l.Unbroken ∧ r.Unbroken := by
  simp [Unbroken, or_imp, forall_and]

@[simp] theorem unbroken_unsupported : (unsupported kind).Unbroken ↔ OneLine kind := by
  simp [Unbroken]

end

variable {c : Context}

private theorem oneLine_of_written {name text : String} {ts : List JavaScript.Token}
    (h : JavaScript.Written name text ts) (hname : OneLine name) : OneLine text := by
  cases h with
  | member => exact oneLine_append.mpr ⟨by decide, hname⟩
  | bare => exact hname
  | plain hplain => exact hplain.newline

private theorem oneLine_gap (operator operand : String) :
    OneLine (Render.gap operator operand) := by
  have hmem := Render.gap_mem operator operand
  simp only [List.mem_cons, List.not_mem_nil, or_false] at hmem
  rcases hmem with hgap | hgap <;> rw [hgap] <;> decide

private theorem oneLine_render {e : Expression} (h : e.Unbroken) : OneLine (e.render c) := by
  induction e with
  | number value =>
    rw [render]
    exact Render.oneLine_number value
  | text value =>
    rw [render]
    exact Render.oneLine_text value
  | boolean value =>
    rw [render]
    cases value <;> decide
  | identifier name =>
    rw [render]
    exact oneLine_of_written (JavaScript.written_identifier name) (unbroken_identifier.mp h)
  | binary operator left right ihl ihr =>
    obtain ⟨hop, hl, hr⟩ := unbroken_binary.mp h
    simp only [render, oneLine_append, hop, ihl hl, ihr hr]
    decide
  | unary operator leading operand ih =>
    obtain ⟨hop, hwell⟩ := (unbroken_unary leading).mp h
    cases leading with
    | true => simp only [render, oneLine_append, hop, oneLine_gap, ih hwell, and_self]
    | false => simp only [render, oneLine_append, hop, ih hwell, and_self]
  | assignment operator left right ihl ihr =>
    obtain ⟨hop, hl, hr⟩ := unbroken_assignment.mp h
    simp only [render, oneLine_append, hop, ihl hl, ihr hr]
    decide
  | conditional condition consequent alternate ihc ihl ihr =>
    obtain ⟨hc, hl, hr⟩ := unbroken_conditional.mp h
    simp only [render, oneLine_append, ihc hc, ihl hl, ihr hr]
    decide
  | call callee arguments ih =>
    obtain ⟨hcallee, hes⟩ := unbroken_call.mp h
    have harguments : OneLine (Text.join ", " (renderAll c arguments)) := by
      refine oneLine_join (by decide) fun s hs => ?_
      rw [renderAll_eq] at hs
      obtain ⟨e, he, rfl⟩ := List.mem_map.mp hs
      exact ih e he (hes e he)
    simp only [render, oneLine_append, oneLine_of_written (JavaScript.written_callee callee) hcallee,
      harguments]
    decide
  | element array index iha ihi =>
    obtain ⟨ha, hi⟩ := unbroken_element.mp h
    simp only [render, oneLine_append, iha ha, ihi hi]
    decide
  | unsupported kind =>
    have hkind : OneLine kind := unbroken_unsupported.mp h
    simp only [render, Render.marker, oneLine_append, hkind]
    decide

private theorem oneLine_operator : ∀ operator ∈
    Operator.binary ++ Operator.assignment ++ Operator.leading ++ Operator.trailing,
    OneLine operator := by
  decide +kernel

/-- A well-formed expression breaks a line in the kind of a node only. -/
theorem WellFormed.unbroken {e : Expression} (h : e.WellFormed)
    (hkinds : ∀ kind ∈ e.kinds, OneLine kind) : e.Unbroken := by
  intro n hn s hs
  have hproper := h n hn
  have hoperator {operator : String} (hmem : operator ∈
      Operator.binary ++ Operator.assignment ++ Operator.leading ++ Operator.trailing)
      (hs : s ∈ [operator]) : OneLine s := by
    rw [List.mem_singleton.mp hs]
    exact oneLine_operator operator hmem
  cases n with
  | identifier name | call name =>
    rw [List.mem_singleton.mp hs]
    exact oneLine_of_isIdentifier hproper
  | unsupported kind =>
    rw [List.mem_singleton.mp hs]
    exact hkinds kind (List.mem_filterMap.mpr ⟨_, hn, rfl⟩)
  | binary operator => exact hoperator (by simp_all [proper]) hs
  | unary operator leading => exact hoperator (by cases leading <;> simp_all [proper]) hs
  | assignment operator => exact hoperator (by simp_all [proper]) hs
  | number | text | boolean | conditional | element => simp [verbatim] at hs

end Expression

namespace Line

/-- No text of the lines has a line break. -/
def Unbroken (ls : List Line) : Prop := ∀ l ∈ ls, OneLine l.text

variable {ls ls' : List Line} {text : String}

theorem Unbroken.append (h : Unbroken ls) (h' : Unbroken ls') : Unbroken (ls ++ ls') :=
  List.forall_mem_append.mpr ⟨h, h'⟩

theorem Unbroken.deeper (h : Unbroken ls) : Unbroken (ls.map deeper) :=
  List.forall_mem_map.mpr h

theorem Unbroken.flatMap {α : Type} {ls : α → List Line} {as : List α}
    (h : ∀ a ∈ as, Unbroken (ls a)) : Unbroken (as.flatMap ls) :=
  List.forall_mem_flatMap.mpr h

theorem unbroken_singleton {level : Nat} (h : OneLine text) : Unbroken [⟨level, text⟩] :=
  List.forall_mem_singleton.mpr h

theorem unbroken_braced (htext : OneLine text) (h : Unbroken ls) (h' : Unbroken ls') :
    Unbroken (braced text ls ls') :=
  List.forall_mem_cons.mpr ⟨oneLine_append.mpr ⟨htext, by decide⟩, h.deeper.append h'⟩

private theorem unbroken_lead (htext : OneLine text) (h : Unbroken ls) :
    Unbroken (lead text ls) := by
  cases ls with
  | nil => exact h
  | cons l ls =>
    obtain ⟨hl, hls⟩ := List.forall_mem_cons.mp h
    exact List.forall_mem_cons.mpr ⟨oneLine_append.mpr ⟨htext, hl⟩, hls⟩

theorem unbroken_close : Unbroken close := unbroken_singleton (by decide)

end Line

variable {c : Context}

theorem Variable.oneLine_renderInitial {v : Variable} (h : ∀ e ∈ v.initial, e.Unbroken) :
    OneLine (v.renderInitial c) := by
  rw [Variable.renderInitial]
  cases hinitial : v.initial with
  | some e => exact Expression.oneLine_render (h e hinitial)
  | none => exact (JavaScript.plain_typeDefault v.type).newline

namespace Statement

/-- What the statement itself writes as it stands in the script. -/
def verbatim : Statement → List String
  | declare declared => [declared.name]
  | unsupported kind => [kind]
  | _ => []

def Unbroken (s : Statement) : Prop :=
  ∀ n ∈ s.nodes, (∀ t ∈ n.verbatim, OneLine t) ∧ ∀ e ∈ n.expressions, e.Unbroken

theorem Unbroken.mono {s n : Statement} (h : s.Unbroken) (hn : n.nodes ⊆ s.nodes) : n.Unbroken :=
  fun m hm => h m (hn hm)

private theorem Unbroken.oneLine_render {s : Statement} {e : Expression} (h : s.Unbroken)
    (he : e ∈ s.expressions) : OneLine (e.render c) :=
  Expression.oneLine_render ((h s s.self_mem_nodes).2 e he)

private theorem Unbroken.oneLine_clause {s : Statement} {clause : Option Expression}
    (h : s.Unbroken)
    (hclause : ∀ e ∈ clause, e ∈ s.expressions) : OneLine (Statement.clause c clause) := by
  cases clause with
  | none => exact List.not_mem_nil
  | some e => exact h.oneLine_render (hclause e rfl)

private theorem unbroken_otherwise {alternate : Statement} {ls : List Line} (h : Line.Unbroken ls) :
    Line.Unbroken (otherwise alternate ls) := by
  rw [otherwise]
  split
  · exact Line.unbroken_lead (by decide) h
  · exact Line.unbroken_braced (by decide) h Line.unbroken_close

/-- Each line of a statement is one, by induction on the statement. -/
theorem unbroken_lines {s : Statement} (h : s.Unbroken) : Line.Unbroken (s.lines c) := by
  have fixed (before after : String) {text : String} (hbefore : OneLine before)
      (htext : OneLine text) (hafter : OneLine after) : OneLine (before ++ text ++ after) := by
    simp only [oneLine_append, hbefore, htext, hafter, and_self]
  induction s with
  | block body ih =>
    rw [lines, linesAll_eq]
    exact Line.Unbroken.flatMap fun s hs => ih s hs (h.mono (nodes_subset_block hs))
  | branch condition consequent alternate ihc iha =>
    have hcondition : OneLine (condition.render c) := h.oneLine_render List.mem_cons_self
    have hhead := fixed "if (" ") " (by decide) hcondition (by decide)
    have hbody := ihc (h.mono (nodes_subset_consequent condition consequent alternate))
    cases alternate with
    | none =>
      rw [lines]
      exact Line.unbroken_braced hhead hbody Line.unbroken_close
    | some alternate =>
      have hinside := nodes_subset_alternate condition consequent alternate
      rw [lines]
      exact Line.unbroken_braced hhead hbody
        (unbroken_otherwise (iha alternate rfl (h.mono hinside)))
  | forLoop init condition update body ih =>
    have hinit : OneLine (clause c init) := h.oneLine_clause (by simp_all [expressions])
    have hcondition : OneLine (clause c condition) := h.oneLine_clause (by simp_all [expressions])
    have hupdate : OneLine (clause c update) := h.oneLine_clause (by simp_all [expressions])
    have hhead : OneLine ("for (" ++ clause c init ++ "; " ++ clause c condition ++ "; "
        ++ clause c update ++ ") ") := by
      simp only [oneLine_append, hinit, hcondition, hupdate]
      decide
    rw [lines]
    exact Line.unbroken_braced hhead (ih (h.mono (List.subset_cons_self _ _))) Line.unbroken_close
  | whileLoop condition body ih =>
    have hcondition : OneLine (condition.render c) := h.oneLine_render List.mem_cons_self
    have hhead := fixed "while (" ") " (by decide) hcondition (by decide)
    rw [lines]
    exact Line.unbroken_braced hhead (ih (h.mono (List.subset_cons_self _ _))) Line.unbroken_close
  | returns value =>
    cases value with
    | none => exact Line.unbroken_singleton (by decide)
    | some value =>
      have hvalue : OneLine (value.render c) := h.oneLine_render (by simp [expressions])
      rw [lines]
      exact Line.unbroken_singleton (fixed "return " ";" (by decide) hvalue (by decide))
  | breaks | continues => exact Line.unbroken_singleton (by decide)
  | evaluate expression =>
    have hexpression : OneLine (expression.render c) := h.oneLine_render List.mem_cons_self
    rw [lines]
    exact Line.unbroken_singleton (oneLine_append.mpr ⟨hexpression, by decide⟩)
  | declare declared =>
    obtain ⟨hname, hexpressions⟩ := h _ (self_mem_nodes _)
    have hinitial : OneLine (declared.renderInitial c) :=
      declared.oneLine_renderInitial fun e he => hexpressions e (Option.mem_toList.mpr he)
    have hline : OneLine ("let " ++ declared.name ++ " = " ++ declared.renderInitial c ++ ";") := by
      simp only [oneLine_append, hname declared.name List.mem_cons_self, hinitial]
      decide
    rw [lines]
    exact Line.unbroken_singleton hline
  | unsupported kind =>
    have hkind : OneLine kind := (h _ (self_mem_nodes _)).1 kind List.mem_cons_self
    rw [lines]
    exact Line.unbroken_singleton (oneLine_append.mpr ⟨by decide, hkind⟩)

theorem WellFormed.unbroken {s : Statement} (h : s.WellFormed)
    (hkinds : ∀ kind ∈ s.kinds ++ s.expressionKinds, OneLine kind) : s.Unbroken := by
  obtain ⟨hstatements, hexpressions⟩ := List.forall_mem_append.mp hkinds
  intro n hn
  obtain ⟨hwell, hname⟩ := h n hn
  refine ⟨fun t ht => ?_, fun e he => (hwell e he).unbroken fun kind hkind => ?_⟩
  · cases n with
    | declare declared =>
      rw [List.mem_singleton.mp ht]
      exact oneLine_of_isIdentifier hname
    | unsupported kind =>
      rw [List.mem_singleton.mp ht]
      exact hstatements kind (List.mem_filterMap.mpr ⟨_, hn, rfl⟩)
    | _ => simp [verbatim] at ht
  · refine hexpressions kind (List.mem_flatMap.mpr ⟨n, hn, ?_⟩)
    exact List.mem_flatMap.mpr ⟨e, he, hkind⟩

end Statement

theorem Function.unbroken_lines {f : Function} (hname : OneLine f.name)
    (hparameters : ∀ p ∈ f.parameters, OneLine p.name) (hbody : f.body.Unbroken) :
    Line.Unbroken (f.lines c) := by
  have hjoin : OneLine (Text.join ", " (f.parameters.map (·.name))) :=
    oneLine_join (by decide) (List.forall_mem_map.mpr hparameters)
  have hhead : OneLine (f.name ++ "(" ++ Text.join ", " (f.parameters.map (·.name)) ++ ") ") := by
    simp only [oneLine_append, hname, hjoin]
    decide
  exact Line.unbroken_braced hhead (Statement.unbroken_lines hbody) Line.unbroken_close

end Advisor
