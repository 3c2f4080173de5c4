import Advisor.Proofs.JavaScript.Indentation
import Advisor.Proofs.Render.Braces
import Advisor.Proofs.Render.Reading

/-!
# Statements that are rendered alike

Printed lines can be taken apart again if none is empty, begins with a blank or has a line break,
and levels are at least one blank. So two statements have the same text exactly if they have the
same skeleton: nothing that a skeleton has is lost, and nothing else counts.
-/

namespace Advisor

open JavaScript

/-- The text begins with a character that is not a blank. -/
def Shown (text : String) : Prop := ∃ d more, text.toList = d :: more ∧ d ≠ ' '

private theorem shown_of_opens {text : String} (h : opens text = true) : Shown text := by
  obtain ⟨d, more, htext, hd⟩ := opens_iff.mp h
  exact ⟨d, more, htext, fun hblank => hd (by simp [blocked, hblank])⟩

theorem Shown.append {s : String} (h : Shown s) (t : String) : Shown (s ++ t) := by
  obtain ⟨d, more, hs, hd⟩ := h
  exact ⟨d, more ++ t.toList, by simp [hs], hd⟩

namespace Line

variable {s : Settings} {depth : Nat} {l m : Line} {ls ms : List Line}

/-- Each line has a text that its blanks can be told from, and no line break in it. -/
def Legible (ls : List Line) : Prop := ∀ l ∈ ls, Shown l.text ∧ OneLine l.text

private theorem print_inj (hindent : 1 ≤ s.indent) (hl : Shown l.text) (hm : Shown m.text)
    (h : (l.print s depth).toList = (m.print s depth).toList) : l = m := by
  obtain ⟨d, more, hd, hblank⟩ := hl
  obtain ⟨e, rest, he, hblank'⟩ := hm
  have hblanks (n : Nat) : ∀ c ∈ List.replicate n ' ', ¬ c ≠ ' ' :=
    fun c hc => not_not_intro (List.mem_replicate.mp hc).2
  rw [toList_print, toList_print, hd, he] at h
  obtain ⟨hcount, rfl, rfl⟩ := append_cons_inj (hblanks _) (hblanks _) hblank hblank' h
  have hdepth := Nat.eq_of_mul_eq_mul_left hindent (List.replicate_left_inj.mp hcount)
  have htext : l.text = m.text := String.toList_inj.mp (hd.trans he.symm)
  exact congr (congrArg Line.mk (Nat.add_left_cancel hdepth)) htext

private theorem printed_inj (hindent : 1 ≤ s.indent) (hls : Legible ls) (hms : Legible ms)
    (h : printed s depth ls = printed s depth ms) : ls = ms := by
  induction ls generalizing ms with
  | nil =>
    cases ms with
    | nil => rfl
    | cons m ms => simp [printed] at h
  | cons l ls ih =>
    cases ms with
    | nil => simp [printed] at h
    | cons m ms =>
      obtain ⟨⟨hl, hbreak⟩, hls⟩ := List.forall_mem_cons.mp hls
      obtain ⟨⟨hm, hbreak'⟩, hms⟩ := List.forall_mem_cons.mp hms
      rw [printed_cons, printed_cons] at h
      obtain ⟨hline, hrest⟩ := append_newline_inj (not_mem_print hbreak) (not_mem_print hbreak') h
      rw [print_inj hindent hl hm hline, ih hls hms hrest]

theorem Legible.text_ne_empty (h : Legible ls) : ∀ l ∈ ls, l.text ≠ "" := by
  intro l hl hempty
  obtain ⟨⟨d, more, htext, -⟩, -⟩ := h l hl
  simp [hempty] at htext

private theorem printAll_inj (hindent : 1 ≤ s.indent) (hls : Legible ls) (hms : Legible ms)
    (h : printAll s depth ls = printAll s depth ms) : ls = ms := by
  cases ls with
  | nil => exact ((printAll_eq_empty_iff hms.text_ne_empty).mp h.symm).symm
  | cons l ls =>
    cases ms with
    | nil => exact (printAll_eq_empty_iff hls.text_ne_empty).mp h
    | cons m ms =>
      refine @printed_inj s depth _ _ hindent hls hms ?_
      rw [← toList_printAll s depth (List.cons_ne_nil l ls), h,
        toList_printAll s depth (List.cons_ne_nil m ms)]

end Line

namespace Skeleton

private theorem Readable.shown_opening {s : Skeleton} (h : s.Readable) : Shown s.opening.text := by
  have fixed {pre : String} (hpre : opens pre = true) (text : String) : Shown (pre ++ text) :=
    (shown_of_opens hpre).append text
  cases h with
  | branch | chain | whileLoop => exact ((fixed (by decide) _).append _).append _
  | forLoop =>
    exact ((((((fixed (by decide) _).append _).append _).append _).append _).append _).append _
  | @returns value =>
    cases value with
    | none => exact shown_of_opens (by decide)
    | some value => exact (fixed (by decide) _).append _
  | breaks | continues => exact shown_of_opens (by decide)
  | evaluate hfragment => exact (shown_of_opens hfragment.opens).append _
  | declare => exact (((fixed (by decide) _).append _).append _).append _
  | unsupported => exact fixed (by decide) _

section

variable {ls ms : List Line} {ss : List Skeleton}

private theorem shown_deeper (h : ∀ l ∈ ls, Shown l.text) :
    ∀ l ∈ ls.map Line.deeper, Shown l.text :=
  List.forall_mem_map.mpr h

private theorem shown_linesAll (h : ∀ s ∈ ss, ∀ l ∈ s.lines, Shown l.text) :
    ∀ l ∈ linesAll ss, Shown l.text := by
  rw [linesAll_eq]
  exact List.forall_mem_flatMap.mpr h

private theorem shown_close : ∀ l ∈ Line.close, Shown l.text :=
  List.forall_mem_singleton.mpr ⟨'\x7d', [], rfl, by decide⟩

private theorem shown_ending {alternate : Option (List Skeleton)}
    (h : ∀ ss ∈ alternate, ∀ s ∈ ss, ∀ l ∈ s.lines, Shown l.text) :
    ∀ l ∈ ending alternate, Shown l.text := by
  cases alternate with
  | none => exact shown_close
  | some ss =>
    have hbody := shown_deeper (shown_linesAll (h ss rfl))
    rw [ending, Line.braced]
    exact List.forall_mem_cons.mpr ⟨⟨'\x7d', _, rfl, by decide⟩,
      List.forall_mem_append.mpr ⟨hbody, shown_close⟩⟩

end

private theorem Readable.shown_of_inner {s : Skeleton} (h : s.Readable)
    (hinner : ∀ l ∈ s.inner, Shown l.text) : ∀ l ∈ s.lines, Shown l.text :=
  List.forall_mem_cons.mpr ⟨h.shown_opening, hinner⟩

private theorem Readable.shown_lines {s : Skeleton} (h : s.Readable) :
    ∀ l ∈ s.lines, Shown l.text := by
  have hnone : ∀ l ∈ ([] : List Line), Shown l.text := List.forall_mem_nil _
  induction h with
  | branch hconsequent halternate ihconsequent ihalternate =>
    refine (Readable.branch hconsequent halternate).shown_of_inner ?_
    rw [inner]
    exact List.forall_mem_append.mpr
      ⟨shown_deeper (shown_linesAll ihconsequent), shown_ending ihalternate⟩
  | chain hconsequent hbranch halternate ihconsequent ihalternate =>
    refine (Readable.chain hconsequent hbranch halternate).shown_of_inner ?_
    rw [inner]
    exact List.forall_mem_append.mpr ⟨shown_deeper (shown_linesAll ihconsequent),
      List.forall_mem_cons.mpr ⟨⟨'\x7d', _, by simp; rfl, by decide⟩,
        (List.forall_mem_cons.mp ihalternate).2⟩⟩
  | forLoop hinit hcondition hupdate hbody ih =>
    refine (Readable.forLoop hinit hcondition hupdate hbody).shown_of_inner ?_
    rw [inner]
    exact List.forall_mem_append.mpr ⟨shown_deeper (shown_linesAll ih), shown_close⟩
  | whileLoop hbody ih =>
    refine (Readable.whileLoop hbody).shown_of_inner ?_
    rw [inner]
    exact List.forall_mem_append.mpr ⟨shown_deeper (shown_linesAll ih), shown_close⟩
  | returns => exact Readable.returns.shown_of_inner hnone
  | breaks => exact Readable.breaks.shown_of_inner hnone
  | continues => exact Readable.continues.shown_of_inner hnone
  | evaluate hfragment => exact (Readable.evaluate hfragment).shown_of_inner hnone
  | declare hname => exact (Readable.declare hname).shown_of_inner hnone
  | unsupported => exact Readable.unsupported.shown_of_inner hnone

end Skeleton

namespace Statement

/-- The names that the expressions of the statement refer to. -/
def names (s : Statement) : List String :=
  s.nodes.flatMap fun n => n.expressions.flatMap Expression.names

private theorem names_mono {s n : Statement} (hn : n.nodes ⊆ s.nodes) : n.names ⊆ s.names := by
  intro name hname
  obtain ⟨m, hm, hname⟩ := List.mem_flatMap.mp hname
  exact List.mem_flatMap.mpr ⟨m, hn hm, hname⟩

/-- The statement is well formed, no kind in it ends a comment, and no expression in it refers to a
name that is a word of statements. -/
structure Clear (s : Statement) : Prop where
  wellFormed : s.WellFormed
  kinds : ∀ kind ∈ s.kinds ++ s.expressionKinds, Tame kind
  names : ∀ name ∈ s.names, name.toList ∉ statementWords

variable {c : Context} {s t : Statement}

theorem Clear.mono (h : s.Clear) (hn : t.nodes ⊆ s.nodes) : t.Clear where
  wellFormed := h.wellFormed.mono hn
  kinds := fun kind hkind => h.kinds kind
    ((List.append_subset.mpr ⟨fun _ hk => List.mem_append_left _ (kinds_mono hn hk),
      fun _ hk => List.mem_append_right _ (expressionKinds_mono hn hk)⟩) hkind)
  names := fun name hname => h.names name (names_mono hn hname)

private theorem Clear.fragment (h : s.Clear) {e : Expression} (he : e ∈ s.expressions) :
    Fragment (e.render c) := by
  refine fragment_render ((h.wellFormed s s.self_mem_nodes).1 e he) (fun kind hkind => ?_)
    fun name hname => h.names name ?_
  · exact (h.kinds kind (List.mem_append_right _ (List.mem_flatMap.mpr
      ⟨s, s.self_mem_nodes, List.mem_flatMap.mpr ⟨e, he, hkind⟩⟩))).1
  · exact List.mem_flatMap.mpr ⟨s, s.self_mem_nodes, List.mem_flatMap.mpr ⟨e, he, hname⟩⟩

private theorem Clear.fragment_clause (h : s.Clear) {clause : Option Expression}
    (hclause : ∀ e ∈ clause, e ∈ s.expressions) :
    ∀ text ∈ clause.map (·.render c), Fragment text := by
  intro text htext
  obtain ⟨e, he, rfl⟩ := Option.map_eq_some_iff.mp htext
  exact h.fragment (hclause e he)

/-- The skeletons of a clear statement are readable, by induction on the statement. -/
theorem Clear.readable (h : s.Clear) : ∀ k ∈ s.skeleton c, k.Readable := by
  induction s with
  | block body ih =>
    rw [skeleton, skeletonAll_eq]
    exact List.forall_mem_flatMap.mpr fun s hs => ih s hs (h.mono (nodes_subset_block hs))
  | branch condition consequent alternate ihc iha =>
    have hconsequent := ihc (h.mono (nodes_subset_consequent condition consequent alternate))
    cases alternate with
    | none =>
      rw [skeleton]
      exact List.forall_mem_singleton.mpr (.branch hconsequent (by simp))
    | some alternate =>
      have halternate :=
        iha alternate rfl (h.mono (nodes_subset_alternate condition consequent alternate))
      rw [skeleton]
      split
      · next hbranch =>
        obtain ⟨k, hk, hkbranch⟩ := exists_skeleton_of_isBranch (c := c) hbranch
        rw [hk, List.forall_mem_singleton] at halternate
        rw [hk, List.map_singleton, List.forall_mem_singleton]
        exact .chain hconsequent hkbranch halternate
      · refine List.forall_mem_singleton.mpr (.branch hconsequent ?_)
        rintro _ ⟨⟩
        exact halternate
  | forLoop init condition update body ih =>
    rw [skeleton, List.forall_mem_singleton]
    exact .forLoop (h.fragment_clause (by simp_all [expressions]))
      (h.fragment_clause (by simp_all [expressions])) (h.fragment_clause (by simp_all [expressions]))
      (ih (h.mono (List.subset_cons_self _ _)))
  | whileLoop condition body ih =>
    rw [skeleton, List.forall_mem_singleton]
    exact .whileLoop (ih (h.mono (List.subset_cons_self _ _)))
  | returns value => exact List.forall_mem_singleton.mpr .returns
  | breaks => exact List.forall_mem_singleton.mpr .breaks
  | continues => exact List.forall_mem_singleton.mpr .continues
  | evaluate expression =>
    exact List.forall_mem_singleton.mpr (.evaluate (h.fragment List.mem_cons_self))
  | declare declared =>
    exact List.forall_mem_singleton.mpr (.declare (h.wellFormed _ (self_mem_nodes _)).2)
  | unsupported kind => exact List.forall_mem_singleton.mpr .unsupported

theorem Clear.legible (h : s.Clear) : Line.Legible (s.lines c) := by
  have hshown : ∀ l ∈ s.lines c, Shown l.text := by
    rw [lines_eq_skeleton]
    exact Skeleton.shown_linesAll fun k hk => (h.readable k hk).shown_lines
  have hlines := unbroken_lines (c := c)
    (h.wellFormed.unbroken fun kind hkind => (h.kinds kind hkind).oneLine)
  exact fun l hl => ⟨hshown l hl, hlines l hl⟩

/-- Statements have the same text exactly if they have the same skeleton. -/
theorem render_eq_iff (hs : s.Clear) (ht : t.Clear) (hindent : 1 ≤ c.settings.indent)
    (depth : Nat) : s.render c depth = t.render c depth ↔ s.skeleton c = t.skeleton c := by
  constructor
  · intro h
    have hlines := Line.printAll_inj hindent hs.legible ht.legible h
    rw [lines_eq_skeleton, lines_eq_skeleton] at hlines
    exact Skeleton.linesAll_inj (fun k hk => (hs.readable k hk).determined) ht.readable hlines
  · intro h
    rw [render, render, lines_eq_skeleton, lines_eq_skeleton, h]

/-- A branch inside the alternate of another, with the alternate in a block or without. -/
def laddered (block : Bool) : Statement :=
  let inside := branch (.identifier "down") (.evaluate (.call "Sell" [.text ";"]))
    (some (.unsupported "SwitchStatement"))
  branch (.identifier "up") (.block []) (some (if block then .block [.block [], inside] else inside))

private theorem clear_laddered (block : Bool) : (laddered block).Clear := by
  have hup : Settings.isIdentifier "up" = true := by decide
  have hdown : Settings.isIdentifier "down" = true := by decide
  have hsell : Settings.isIdentifier "Sell" = true := by decide
  have hkinds : (laddered block).kinds ++ (laddered block).expressionKinds = ["SwitchStatement"] := by
    cases block <;> rfl
  have hnames : (laddered block).names = ["up", "down", "Sell"] := by
    cases block <;> rfl
  refine ⟨?_, ?_, ?_⟩
  · cases block <;>
      simp [laddered, WellFormed, nodes, nodesAll, Proper, expressions, Expression.WellFormed,
        Expression.nodes, Expression.nodesAll, Expression.proper, hup, hdown, hsell]
  · rw [hkinds]
    exact List.forall_mem_singleton.mpr (tame_of_word (by decide))
  · rw [hnames]
    decide

/-- The `else` of a nested branch is not that of the branch around it, and a block is told from a
branch that follows on the line of the `else`. -/
theorem laddered_apart : 1 ≤ Settings.standard.indent ∧
    (laddered true).render ⟨⟨[], [], []⟩, Settings.standard⟩ 0
      ≠ (laddered false).render ⟨⟨[], [], []⟩, Settings.standard⟩ 0 := by
  have hindent : 1 ≤ Settings.standard.indent := by decide
  have hskeleton : (laddered true).skeleton ⟨⟨[], [], []⟩, Settings.standard⟩
      ≠ (laddered false).skeleton ⟨⟨[], [], []⟩, Settings.standard⟩ := by
    simp [laddered, skeleton, skeletonAll, isBranch]
  exact ⟨hindent, mt (render_eq_iff (clear_laddered true) (clear_laddered false) hindent 0).mp
    hskeleton⟩

end Statement

end Advisor
