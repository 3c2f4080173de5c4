import Advisor.Proofs.JavaScript.Fragment
import Advisor.Proofs.JavaScript.Layout
import Advisor.Proofs.Render.OneLine
import Advisor.Proofs.Render.Skeleton

/-!
# Reading statements back

The lines of a skeleton tell it from all others. Its kind is read from the tokens of its first line,
its texts are what that line has between fixed ones, and a body is all that is deeper.
-/

namespace Advisor

open JavaScript

namespace Skeleton

/-- The lines of the skeleton can be read: where its kind or the end of a clause depends on a text,
that is one of an expression, and what it declares is a name. -/
inductive Readable : Skeleton → Prop
  | branch {condition consequent alternate} : (∀ s ∈ consequent, Readable s) →
      (∀ body ∈ alternate, ∀ s ∈ body, Readable s) →
      Readable (.branch condition consequent alternate)
  | chain {condition consequent alternate} : (∀ s ∈ consequent, Readable s) →
      alternate.isBranch = true → Readable alternate →
      Readable (.chain condition consequent alternate)
  | forLoop {init condition update body} : (∀ text ∈ init, Fragment text) →
      (∀ text ∈ condition, Fragment text) → (∀ text ∈ update, Fragment text) →
      (∀ s ∈ body, Readable s) → Readable (.forLoop init condition update body)
  | whileLoop {condition body} : (∀ s ∈ body, Readable s) → Readable (.whileLoop condition body)
  | returns {value} : Readable (.returns value)
  | breaks : Readable .breaks
  | continues : Readable .continues
  | evaluate {text} : Fragment text → Readable (.evaluate text)
  | declare {name initial} : Settings.isIdentifier name = true → Readable (.declare name initial)
  | unsupported {kind} : Readable (.unsupported kind)

/-- What the first line is told by, if it is not that of an expression. -/
def keyword : Skeleton → Option (List Char)
  | branch _ _ _ | chain _ _ _ => some "if".toList
  | forLoop _ _ _ _ => some "for".toList
  | whileLoop _ _ => some "while".toList
  | returns _ => some "return".toList
  | breaks => some "break".toList
  | continues => some "continue".toList
  | evaluate _ => none
  | declare _ _ => some "let".toList
  | unsupported _ => some ['/', '/']

private theorem keyword_cons {word : List Char} (h : word ∈ statementWords) (ts : List Token) :
    JavaScript.keyword (.word word :: ts) = some word := by
  cases ts with
  | nil => exact if_pos h
  | cons t ts => cases t <;> first | rfl | exact if_pos h

private theorem keyword_fixed {pre : String} {word : List Char}
    (hpre : steady pre.toList = true ∧ (scan pre.toList).head? = some (.word word))
    (hword : word ∈ statementWords) (text : String) :
    JavaScript.keyword (scan (pre ++ text).toList) = some word := by
  obtain ⟨ts, hts⟩ := List.head?_eq_some_iff.mp hpre.2
  rw [String.toList_append, scan_append _ hpre.1, hts, List.cons_append, keyword_cons hword]

private theorem Readable.keyword_opening {s : Skeleton} (h : s.Readable) :
    JavaScript.keyword (scan s.opening.text.toList) = s.keyword := by
  cases h with
  | branch | chain | forLoop | whileLoop =>
    simp only [opening, String.append_assoc]
    exact keyword_fixed (by decide) (by decide) _
  | @returns value =>
    cases value with
    | none => decide
    | some value =>
      simp only [opening, String.append_assoc]
      exact keyword_fixed (by decide) (by decide) _
  | breaks | continues => decide
  | @evaluate text h =>
    obtain ⟨ts, hts, hkeyword, -⟩ := h.scans
    have hscan : scan (text ++ ";").toList = ts ++ scan [';'] := by
      rw [String.toList_append]
      exact hts [';'] (stops_cons (by decide))
    rw [opening, hscan]
    exact keyword_append_mark hkeyword [';'] []
  | @declare name initial hname =>
    have hpre : steady "let ".toList = true ∧ scan "let ".toList = [.word "let".toList] := by decide
    have hopening : (Skeleton.declare name initial).opening.text.toList
        = "let ".toList ++ (name.toList ++ ' ' :: ("= " ++ initial ++ ";").toList) := by
      simp [opening]
    rw [hopening, scan_fixed hpre, scan_word hname (by simp; decide)]
    rfl
  | @unsupported kind =>
    have hopening : (Skeleton.unsupported kind).opening.text.toList
        = '/' :: '/' :: (" Unsupported statement: " ++ kind).toList := by
      simp [opening]
    rw [hopening, scan_cons _ (by decide), next_remark]
    rfl

private theorem level_deeper {ls : List Line} : ∀ l ∈ ls.map Line.deeper, ¬ l.level = 0 := by
  rintro _ hl
  obtain ⟨l, -, rfl⟩ := List.mem_map.mp hl
  exact Nat.succ_ne_zero l.level

private theorem deeper_injective : Function.Injective Line.deeper := by
  rintro ⟨n, s⟩ ⟨m, t⟩ h
  simpa [Line.deeper] using h

/-- No other skeleton has its lines, whatever follows them. -/
def Determined (s : Skeleton) : Prop :=
  ∀ ⦃k X Y⦄, Readable k → s.lines ++ X = k.lines ++ Y → s = k ∧ X = Y

section Bodies

variable {ss ks : List Skeleton} {X Y : List Line}

theorem linesAll_inj (hs : ∀ s ∈ ss, s.Determined) (hk : ∀ k ∈ ks, k.Readable)
    (h : linesAll ss = linesAll ks) : ss = ks := by
  induction ss generalizing ks with
  | nil =>
    cases ks with
    | nil => rfl
    | cons k ks => exact absurd h (List.cons_ne_nil _ _).symm
  | cons s ss ih =>
    cases ks with
    | nil => exact absurd h (List.cons_ne_nil _ _)
    | cons k ks =>
      obtain ⟨hs, hss⟩ := List.forall_mem_cons.mp hs
      obtain ⟨hk, hks⟩ := List.forall_mem_cons.mp hk
      rw [linesAll_cons, linesAll_cons] at h
      obtain ⟨rfl, hrest⟩ := hs hk h
      rw [ih hss hks hrest]

/-- The lines begin with one that is not deeper. -/
def Flush (ls : List Line) : Prop := ∃ text rest, ls = ⟨0, text⟩ :: rest

private theorem flush_cons (text : String) (rest : List Line) : Flush (⟨0, text⟩ :: rest) :=
  ⟨text, rest, rfl⟩

private theorem flush_close (X : List Line) : Flush (Line.close ++ X) := flush_cons "\x7d" X

private theorem flush_ending (alternate : Option (List Skeleton)) (X : List Line) :
    Flush (ending alternate ++ X) := by
  cases alternate with
  | none => exact flush_close X
  | some alternate => exact flush_cons _ _

/-- A body ends with the first line that is not deeper. -/
theorem body_inj (hs : ∀ s ∈ ss, s.Determined) (hk : ∀ k ∈ ks, k.Readable) (hX : Flush X)
    (hY : Flush Y) (h : (linesAll ss).map Line.deeper ++ X = (linesAll ks).map Line.deeper ++ Y) :
    ss = ks ∧ X = Y := by
  obtain ⟨t, X, rfl⟩ := hX
  obtain ⟨u, Y, rfl⟩ := hY
  obtain ⟨hbody, hline, hrest⟩ :=
    append_cons_inj (P := (Line.level · = 0)) level_deeper level_deeper rfl rfl h
  exact ⟨linesAll_inj hs hk (deeper_injective.list_map hbody), by rw [hline, hrest]⟩

theorem ending_inj {a b : Option (List Skeleton)} (ha : ∀ ss ∈ a, ∀ s ∈ ss, s.Determined)
    (hb : ∀ ks ∈ b, ∀ k ∈ ks, k.Readable) (h : ending a ++ X = ending b ++ Y) : a = b ∧ X = Y := by
  have hne : "\x7d" ≠ "\x7d else " ++ "\x7b" := by decide
  cases a with
  | none =>
    cases b with
    | none => exact ⟨rfl, (List.cons.inj h).2⟩
    | some ks => exact absurd (Line.mk.inj (List.cons.inj h).1).2 hne
  | some ss =>
    cases b with
    | none => exact absurd (Line.mk.inj (List.cons.inj h).1).2.symm hne
    | some ks =>
      simp only [ending, Line.braced, List.cons_append, List.append_assoc, List.cons.injEq,
        true_and] at h
      obtain ⟨rfl, hclose⟩ := body_inj (ha ss rfl) (hb ks rfl) (flush_close X) (flush_close Y) h
      exact ⟨rfl, (List.cons.inj hclose).2⟩

private theorem ending_ne {k : Skeleton} (h : k.isBranch = true) (a : Option (List Skeleton)) :
    ending a ++ X ≠ ⟨0, "\x7d else " ++ k.opening.text⟩ :: Y := by
  intro heq
  cases k with
  | branch | chain =>
    cases a <;> simp [ending, Line.close, Line.braced, opening, ← String.toList_inj] at heq
  | _ => exact absurd h Bool.false_ne_true

end Bodies

section Texts

variable {a b : Option String} {s t u s' t' u' : String}

private theorem clausal_getD (h : ∀ text ∈ a, Fragment text) : Clausal (a.getD "") := by
  cases a with
  | none => exact clausal_empty
  | some text => exact (h text rfl).clausal

private theorem ne_empty_of_fragment (h : Fragment s) : s ≠ "" := by
  rintro rfl
  exact absurd h.opens (by decide)

private theorem getD_inj (ha : ∀ text ∈ a, Fragment text) (hb : ∀ text ∈ b, Fragment text)
    (h : a.getD "" = b.getD "") : a = b := by
  cases a with
  | none =>
    cases b with
    | none => rfl
    | some text => exact absurd h.symm (ne_empty_of_fragment (hb text rfl))
  | some text =>
    cases b with
    | none => exact absurd h (ne_empty_of_fragment (ha text rfl))
    | some text' => exact congrArg some h

private theorem condition_inj (pre : String)
    (h : pre ++ s ++ ") " ++ "\x7b" = pre ++ s' ++ ") " ++ "\x7b") : s = s' := by
  simpa [← String.toList_inj] using h

private theorem clauses_inj (hs : Clausal s) (hs' : Clausal s') (ht : Clausal t) (ht' : Clausal t')
    (h : "for (" ++ s ++ "; " ++ t ++ "; " ++ u ++ ") " ++ "\x7b"
      = "for (" ++ s' ++ "; " ++ t' ++ "; " ++ u' ++ ") " ++ "\x7b") :
    s = s' ∧ t = t' ∧ u = u' := by
  have hclauses : s.toList ++ ';' :: ' ' :: (t.toList ++ ';' :: ' ' :: (u ++ ") \x7b").toList)
      = s'.toList ++ ';' :: ' ' :: (t'.toList ++ ';' :: ' ' :: (u' ++ ") \x7b").toList) := by
    simpa [← String.toList_inj] using h
  obtain ⟨rfl, hrest⟩ := hs.append_inj hs' hclauses
  obtain ⟨rfl, hrest⟩ := ht.append_inj ht' (List.cons.inj hrest).2
  exact ⟨rfl, rfl, by simpa [String.toList_inj] using hrest⟩

private theorem declare_inj (hs : Settings.isIdentifier s = true)
    (hs' : Settings.isIdentifier s' = true)
    (h : "let " ++ s ++ " = " ++ t ++ ";" = "let " ++ s' ++ " = " ++ t' ++ ";") :
    s = s' ∧ t = t' := by
  have hparts : s.toList ++ ' ' :: '=' :: ' ' :: (t.toList ++ [';'])
      = s'.toList ++ ' ' :: '=' :: ' ' :: (t'.toList ++ [';']) := by
    simpa [← String.toList_inj] using h
  have hname {name : String} (hname : Settings.isIdentifier name = true) :
      ∀ d ∈ name.toList, ¬ d = ' ' := by
    rintro d hd rfl
    exact absurd (continuesIdentifier_of_mem hname hd) (by decide)
  obtain ⟨hs, -, hrest⟩ := append_cons_inj (hname hs) (hname hs') rfl rfl hparts
  exact ⟨String.toList_inj.mp hs, by simpa [String.toList_inj] using hrest⟩

private theorem returns_inj (h : (returns a).opening.text = (returns b).opening.text) : a = b := by
  have hne (value : String) : "return;" ≠ "return " ++ value ++ ";" := by
    rw [Ne, ← String.toList_inj]
    simp
  cases a with
  | none =>
    cases b with
    | none => rfl
    | some value => exact absurd h (hne value)
  | some value =>
    cases b with
    | none => exact absurd h.symm (hne value)
    | some value' =>
      have hvalue : value.toList = value'.toList := by
        simpa [opening, ← String.toList_inj] using h
      exact congrArg some (String.toList_inj.mp hvalue)

end Texts

/-- The first line tells the kind; so only skeletons of the same kind have to be told apart. -/
theorem Readable.determined_of_inner {s : Skeleton} (hs : s.Readable)
    (h : ∀ k X Y, k.Readable → s.keyword = k.keyword → s.opening.text = k.opening.text →
      s.inner ++ X = k.inner ++ Y → s = k ∧ X = Y) : s.Determined := by
  intro k X Y hk heq
  obtain ⟨hopening, hinner⟩ := List.cons.inj heq
  have hkeyword := hs.keyword_opening
  rw [hopening, hk.keyword_opening] at hkeyword
  exact h k X Y hk hkeyword.symm (congrArg Line.text hopening) hinner

section Compound

variable {condition : String} {consequent body : List Skeleton} {alternate : Option (List Skeleton)}
  {init test update : Option String} {next : Skeleton}

private theorem determined_branch (h : (branch condition consequent alternate).Readable)
    (hconsequent : ∀ s ∈ consequent, s.Determined)
    (halternate : ∀ body ∈ alternate, ∀ s ∈ body, s.Determined) :
    (branch condition consequent alternate).Determined := by
  refine h.determined_of_inner ?_
  intro k X Y hk hkeyword htext hinner
  cases hk with
  | branch hconsequent' halternate' =>
    obtain rfl := condition_inj "if (" htext
    rw [inner, inner, List.append_assoc, List.append_assoc] at hinner
    obtain ⟨rfl, hending⟩ :=
      body_inj hconsequent hconsequent' (flush_ending _ X) (flush_ending _ Y) hinner
    obtain ⟨rfl, rfl⟩ := ending_inj halternate halternate' hending
    exact ⟨rfl, rfl⟩
  | chain hconsequent' hbranch' halternate' =>
    rw [inner, inner, List.append_assoc, List.append_assoc] at hinner
    obtain ⟨-, hending⟩ :=
      body_inj hconsequent hconsequent' (flush_ending _ X) (flush_cons _ _) hinner
    exact absurd hending (ending_ne hbranch' _)
  | _ => simp [keyword] at hkeyword

private theorem determined_chain (h : (chain condition consequent next).Readable)
    (hconsequent : ∀ s ∈ consequent, s.Determined) (hbranch : next.isBranch = true)
    (hnext : next.Determined) : (chain condition consequent next).Determined := by
  refine h.determined_of_inner ?_
  intro k X Y hk hkeyword htext hinner
  cases hk with
  | branch hconsequent' halternate' =>
    rw [inner, inner, List.append_assoc, List.append_assoc] at hinner
    obtain ⟨-, hending⟩ :=
      body_inj hconsequent hconsequent' (flush_cons _ _) (flush_ending _ Y) hinner
    exact absurd hending.symm (ending_ne hbranch _)
  | @chain _ _ next' hconsequent' hbranch' hnext' =>
    obtain rfl := condition_inj "if (" htext
    rw [inner, inner, List.append_assoc, List.append_assoc] at hinner
    obtain ⟨rfl, hending⟩ :=
      body_inj hconsequent hconsequent' (flush_cons _ _) (flush_cons _ _) hinner
    obtain ⟨hline, hrest⟩ := List.cons.inj hending
    have hopening : next.opening.text = next'.opening.text := by
      simpa [← String.toList_inj] using hline
    have hlines : next.lines ++ X = next'.lines ++ Y := by
      rw [lines, lines, opening_eq next, opening_eq next', hopening]
      exact congrArg _ hrest
    obtain ⟨rfl, rfl⟩ := hnext hnext' hlines
    exact ⟨rfl, rfl⟩
  | _ => simp [keyword] at hkeyword

private theorem determined_forLoop (h : (forLoop init test update body).Readable)
    (hinit : ∀ text ∈ init, Fragment text) (htest : ∀ text ∈ test, Fragment text)
    (hupdate : ∀ text ∈ update, Fragment text) (hbody : ∀ s ∈ body, s.Determined) :
    (forLoop init test update body).Determined := by
  refine h.determined_of_inner ?_
  intro k X Y hk hkeyword htext hinner
  cases hk with
  | forLoop hinit' htest' hupdate' hbody' =>
    obtain ⟨hfirst, hsecond, hthird⟩ := clauses_inj (clausal_getD hinit) (clausal_getD hinit')
      (clausal_getD htest) (clausal_getD htest') htext
    rw [inner, inner, List.append_assoc, List.append_assoc] at hinner
    obtain ⟨rfl, hclose⟩ := body_inj hbody hbody' (flush_close X) (flush_close Y) hinner
    rw [getD_inj hinit hinit' hfirst, getD_inj htest htest' hsecond,
      getD_inj hupdate hupdate' hthird]
    exact ⟨rfl, List.append_cancel_left hclose⟩
  | _ => simp [keyword] at hkeyword

private theorem determined_whileLoop (h : (whileLoop condition body).Readable)
    (hbody : ∀ s ∈ body, s.Determined) : (whileLoop condition body).Determined := by
  refine h.determined_of_inner ?_
  intro k X Y hk hkeyword htext hinner
  cases hk with
  | whileLoop hbody' =>
    obtain rfl := condition_inj "while (" htext
    rw [inner, inner, List.append_assoc, List.append_assoc] at hinner
    obtain ⟨rfl, hclose⟩ := body_inj hbody hbody' (flush_close X) (flush_close Y) hinner
    exact ⟨rfl, List.append_cancel_left hclose⟩
  | _ => simp [keyword] at hkeyword

end Compound

/-- The lines of a readable skeleton tell it from all others, by induction on the skeleton: its
bodies are told from others by their own lines. -/
theorem Readable.determined {s : Skeleton} (h : s.Readable) : s.Determined := by
  induction h with
  | branch hconsequent halternate ihconsequent ihalternate =>
    exact determined_branch (.branch hconsequent halternate) ihconsequent ihalternate
  | chain hconsequent hbranch hnext ihconsequent ihnext =>
    exact determined_chain (.chain hconsequent hbranch hnext) ihconsequent hbranch ihnext
  | forLoop hinit htest hupdate hbody ih =>
    exact determined_forLoop (.forLoop hinit htest hupdate hbody) hinit htest hupdate ih
  | whileLoop hbody ih => exact determined_whileLoop (.whileLoop hbody) ih
  | returns =>
    refine Readable.returns.determined_of_inner ?_
    intro k X Y hk hkeyword htext hinner
    cases hk with
    | returns => exact ⟨congrArg Skeleton.returns (returns_inj htext), hinner⟩
    | _ => simp [keyword] at hkeyword
  | breaks =>
    refine Readable.breaks.determined_of_inner ?_
    intro k X Y hk hkeyword htext hinner
    cases hk with
    | breaks => exact ⟨rfl, hinner⟩
    | _ => simp [keyword] at hkeyword
  | continues =>
    refine Readable.continues.determined_of_inner ?_
    intro k X Y hk hkeyword htext hinner
    cases hk with
    | continues => exact ⟨rfl, hinner⟩
    | _ => simp [keyword] at hkeyword
  | @evaluate text hfragment =>
    refine (Readable.evaluate hfragment).determined_of_inner ?_
    intro k X Y hk hkeyword htext hinner
    cases hk with
    | @evaluate text' =>
      have heq : text.toList = text'.toList := by simpa [opening, ← String.toList_inj] using htext
      exact ⟨congrArg Skeleton.evaluate (String.toList_inj.mp heq), hinner⟩
    | _ => simp [keyword] at hkeyword
  | declare hname =>
    refine (Readable.declare hname).determined_of_inner ?_
    intro k X Y hk hkeyword htext hinner
    cases hk with
    | declare hname' =>
      obtain ⟨rfl, rfl⟩ := declare_inj hname hname' htext
      exact ⟨rfl, hinner⟩
    | _ => simp [keyword] at hkeyword
  | @unsupported kind =>
    refine Readable.unsupported.determined_of_inner ?_
    intro k X Y hk hkeyword htext hinner
    cases hk with
    | @unsupported kind' =>
      have heq : kind.toList = kind'.toList := by simpa [opening, ← String.toList_inj] using htext
      exact ⟨congrArg Skeleton.unsupported (String.toList_inj.mp heq), hinner⟩
    | _ => simp [keyword] at hkeyword

end Skeleton

end Advisor
