import Advisor.Proofs.JavaScript.Layout

/-!
# Statements as tokens

The lines of a statement are scanned as its tokens and are laid out under any open brackets, by
induction on the statement.
-/

namespace Advisor.JavaScript

private theorem scan_remark {body : List Char} (rest : List Char)
    (h : ∀ c ∈ body, isLineEnd c = false) :
    scan ('/' :: '/' :: (body ++ '\n' :: rest)) = .remark body :: scan rest := by
  have hend : ∀ d ∈ ('\n' :: rest).head?, (!isLineEnd d) = false := by simp [isLineEnd]
  obtain ⟨htake, hdrop⟩ := span_stopped (p := (!isLineEnd ·)) (by simpa using h) hend
  rw [scan_cons _ (by decide), next_remark, htake, hdrop, scan_blank _ rfl]

end Advisor.JavaScript

namespace Advisor

open JavaScript

def Variable.initialTokens (c : Context) (v : Variable) : List Token :=
  match v.initial with
  | some e => e.tokens c
  | none => scan (Host.typeDefault v.type).toList

namespace Statement

/-- The text of the comment that stands for a statement that is not supported. -/
def remarkBody (kind : String) : List Char := (" Unsupported statement: " ++ kind).toList

def clauseTokens (c : Context) : Option Expression → List Token
  | some e => e.tokens c
  | none => []

def bracedTokens (ts : List Token) : List Token := .mark ['\x7b'] :: (ts ++ [.mark ['\x7d']])

def headTokens (word : String) (ts : List Token) : List Token :=
  .word word.toList :: .mark ['('] :: (ts ++ [.mark [')']])

mutual

def tokens (c : Context) : Statement → List Token
  | block body => tokensAll c body
  | branch condition consequent none =>
    headTokens "if" (condition.tokens c) ++ bracedTokens (consequent.tokens c)
  | branch condition consequent (some alternate) =>
    headTokens "if" (condition.tokens c) ++ bracedTokens (consequent.tokens c)
      ++ .word "else".toList
        :: (if alternate.isBranch then alternate.tokens c else bracedTokens (alternate.tokens c))
  | forLoop init condition update body =>
    headTokens "for" (clauseTokens c init ++ .mark [';'] :: (clauseTokens c condition
      ++ .mark [';'] :: clauseTokens c update)) ++ bracedTokens (body.tokens c)
  | whileLoop condition body =>
    headTokens "while" (condition.tokens c) ++ bracedTokens (body.tokens c)
  | returns (some value) => .word "return".toList :: (value.tokens c ++ [.mark [';']])
  | returns none => [.word "return".toList, .mark [';']]
  | breaks => [.word "break".toList, .mark [';']]
  | continues => [.word "continue".toList, .mark [';']]
  | evaluate expression => expression.tokens c ++ [.mark [';']]
  | declare declared =>
    .word "let".toList :: .word declared.name.toList :: .mark ['=']
      :: (declared.initialTokens c ++ [.mark [';']])
  | unsupported kind => [.remark (remarkBody kind)]

def tokensAll (c : Context) : List Statement → List Token
  | [] => []
  | s :: rest => s.tokens c ++ tokensAll c rest

end

theorem tokensAll_eq (c : Context) (body : List Statement) :
    tokensAll c body = body.flatMap (tokens c) := by
  induction body with
  | nil => rfl
  | cons s rest ih => rw [tokensAll, ih, List.flatMap_cons]

end Statement

namespace JavaScript

variable {c : Context}

theorem scans_initial {v : Variable} (h : ∀ e ∈ v.initial, Scans (e.render c) (e.tokens c)) :
    Scans (v.renderInitial c) (v.initialTokens c) := by
  rw [Variable.renderInitial, Variable.initialTokens]
  cases hinitial : v.initial with
  | some e => exact h e hinitial
  | none => exact (plain_typeDefault v.type).scans

private theorem scans_clause {clause : Option Expression}
    (h : ∀ e ∈ clause, Scans (e.render c) (e.tokens c)) :
    Scans (Statement.clause c clause) (Statement.clauseTokens c clause) := by
  cases clause with
  | none => exact fun _ _ => rfl
  | some e => exact h e rfl

theorem Scans.semicolon {s t : String} {ts us : List Token} (h : Scans s ts) (h' : Scans t us) :
    Scans (s ++ "; " ++ t) (ts ++ .mark [';'] :: us) := by
  intro rest hrest
  have hsplit : (s ++ "; " ++ t).toList ++ rest
      = s.toList ++ ';' :: ' ' :: (t.toList ++ rest) := by
    simp
  rw [hsplit, h _ (stops_cons (by decide)), scan_bracket _ (by decide), scan_blank _ rfl, h' _ hrest]
  simp

theorem Scans.lineScans {s : String} {ts : List Token} (h : Scans s ts) :
    LineScans (s ++ ";") (ts ++ [.mark [';']]) := by
  intro rest
  have hsplit : (s ++ ";").toList ++ '\n' :: rest = s.toList ++ ';' :: '\n' :: rest := by simp
  rw [hsplit, h _ (stops_cons (by decide)), scan_bracket _ (by decide), scan_blank _ rfl]
  simp

private theorem lineScans_head (pre word : String) {s : String} {ts : List Token}
    (hpre : steady pre.toList = true ∧ scan pre.toList = [.word word.toList, .mark ['(']])
    (h : Scans s ts) :
    LineScans (pre ++ s ++ ") " ++ "\x7b") (Statement.headTokens word ts ++ [.mark ['\x7b']]) := by
  intro rest
  have hsplit : (pre ++ s ++ ") " ++ "\x7b").toList ++ '\n' :: rest
      = pre.toList ++ (s.toList ++ ')' :: ' ' :: '\x7b' :: '\n' :: rest) := by
    simp
  rw [hsplit, scan_fixed hpre, h _ (stops_cons (by decide)), scan_bracket _ (by decide),
    scan_blank _ rfl, scan_bracket _ (by decide), scan_blank _ rfl]
  simp [Statement.headTokens]

private theorem nest_head (word : String) {ts : List Token} (h : Neutral ts)
    (stack : List (List Char)) :
    nest stack (Statement.headTokens word ts ++ [.mark ['\x7b']]) = some (['\x7b'] :: stack) := by
  simp only [Statement.headTokens, List.cons_append, List.append_assoc, List.nil_append]
  rw [nest_word, nest_open (by decide), h, nest_close (by decide), nest_open (by decide), nest_nil]

private theorem fits_head (pre word : String) {text : String} {ts us closing : List Token}
    {ls ls' : List Line}
    (hpre : steady pre.toList = true ∧ scan pre.toList = [.word word.toList, .mark ['(']])
    (hopens : opens pre = true) (hscan : Scans text ts) (hneutral : Neutral ts) (h : Fits ls us)
    (h' : Shuts ls' closing) :
    Fits (Line.braced (pre ++ text ++ ") ") ls ls')
      (Statement.headTokens word ts ++ [.mark ['\x7b']] ++ (us ++ closing)) :=
  Fits.braced (lineScans_head pre word hpre hscan) (opens_append (opens_append hopens))
    (nest_head word hneutral) h h'

private theorem shuts_otherwise {alternate : Statement} {ls : List Line} {ts : List Token}
    (hfirst : alternate.isBranch = true → ls ≠ [] ∧ ∀ l ∈ ls.head?, l.level = 0) (h : Fits ls ts) :
    Shuts (Statement.otherwise alternate ls)
      (.mark ['\x7d'] :: .word "else".toList
        :: if alternate.isBranch then ts else Statement.bracedTokens ts) := by
  intro stack
  have hclose (rest : List Token) : nest (['\x7b'] :: stack)
      (.mark ['\x7d'] :: .word "else".toList :: rest) = nest stack rest := nest_close (by decide) _ _
  rw [Statement.otherwise]
  split
  · next hbranch =>
    obtain ⟨hne, hlevel⟩ := hfirst hbranch
    have htext : steady "\x7d else ".toList = true ∧
        scan "\x7d else ".toList = [.mark ['\x7d'], .word "else".toList] := by decide
    refine Laid.lead hne (scan_fixed htext) (hclose []) (fun l hl => ?_) (h stack)
    rw [hlevel l hl]
    exact placed_shut stack (" else " ++ l.text)
  · have hscan : LineScans ("\x7d else " ++ "\x7b")
        [.mark ['\x7d'], .word "else".toList, .mark ['\x7b']] :=
      lineScans_fixed (by decide)
    exact Laid.braced hscan (placed_shut stack " else \x7b")
      ((hclose [.mark ['\x7b']]).trans (nest_open (by decide) stack [])) h shuts_close

private theorem fits_all {body : List Statement} (h : ∀ s ∈ body, Fits (s.lines c) (s.tokens c)) :
    Fits (Statement.linesAll c body) (Statement.tokensAll c body) := by
  rw [Statement.linesAll_eq, Statement.tokensAll_eq]
  exact Fits.flatMap h

private theorem head_lines {s : Statement} (h : s.isBranch = true) :
    s.lines c ≠ [] ∧ ∀ l ∈ (s.lines c).head?, l.level = 0 := by
  cases s with
  | branch condition consequent alternate => cases alternate <;> simp [Statement.lines, Line.braced]
  | _ => simp [Statement.isBranch] at h

theorem isLineEnd_remarkBody {kind : String} :
    (∀ d ∈ Statement.remarkBody kind, isLineEnd d = false) ↔
      ∀ d ∈ kind.toList, isLineEnd d = false := by
  have hbefore : " Unsupported statement: ".toList.all (!isLineEnd ·) = true := by decide
  rw [Statement.remarkBody, String.toList_append, List.forall_mem_append]
  exact and_iff_right (by simpa using List.all_eq_true.mp hbefore)

theorem lineScans_remark {kind : String} (h : ∀ d ∈ kind.toList, isLineEnd d = false) :
    LineScans ("// Unsupported statement: " ++ kind) [.remark (Statement.remarkBody kind)] := by
  intro rest
  have hsplit : ("// Unsupported statement: " ++ kind).toList ++ '\n' :: rest
      = '/' :: '/' :: (Statement.remarkBody kind ++ '\n' :: rest) := by
    simp [Statement.remarkBody]
  rw [hsplit, scan_remark rest (isLineEnd_remarkBody.mpr h), List.singleton_append]

/-- A well-formed statement with no kind that ends a comment too early. -/
structure Scannable (s : Statement) : Prop where
  wellFormed : s.WellFormed
  expressions : ∀ kind ∈ s.expressionKinds, ¬ ['*', '/'] <:+: kind.toList
  statements : ∀ kind ∈ s.kinds, ∀ d ∈ kind.toList, isLineEnd d = false

theorem Scannable.mono {s n : Statement} (h : Scannable s) (hn : n.nodes ⊆ s.nodes) :
    Scannable n where
  wellFormed := h.wellFormed.mono hn
  expressions kind hkind := h.expressions kind (Statement.expressionKinds_mono hn hkind)
  statements kind hkind := h.statements kind (Statement.kinds_mono hn hkind)

theorem Scannable.scans {s : Statement} {e : Expression} (h : Scannable s)
    (he : e ∈ s.expressions) : Scans (e.render c) (e.tokens c) := by
  refine scans_render ((h.wellFormed s s.self_mem_nodes).1 e he) (fun kind hkind => ?_)
  exact h.expressions kind
    (List.mem_flatMap.mpr ⟨s, s.self_mem_nodes, List.mem_flatMap.mpr ⟨e, he, hkind⟩⟩)

theorem Scannable.neutral {s : Statement} {e : Expression} (h : Scannable s)
    (he : e ∈ s.expressions) : Neutral (e.tokens c) :=
  neutral_tokens ((h.wellFormed s s.self_mem_nodes).1 e he)

theorem neutral_semicolon : Neutral [.mark [';']] := neutral_mark (by decide)

private theorem neutral_clauses {init condition update : Option Expression}
    (h : ∀ e ∈ init.toList ++ condition.toList ++ update.toList, Neutral (e.tokens c)) :
    Neutral (Statement.clauseTokens c init ++ .mark [';'] :: (Statement.clauseTokens c condition
      ++ .mark [';'] :: Statement.clauseTokens c update)) := by
  have hclause {clause : Option Expression} (h : ∀ e ∈ clause, Neutral (e.tokens c)) :
      Neutral (Statement.clauseTokens c clause) := by
    cases clause with
    | none => exact neutral_nil
    | some e => exact h e rfl
  simp only [List.mem_append, Option.mem_toList] at h
  have hinit := hclause fun e he => h e (Or.inl (Or.inl he))
  have hcondition := hclause fun e he => h e (Or.inl (Or.inr he))
  have hupdate := hclause fun e he => h e (Or.inr he)
  exact hinit.append ((hcondition.append (hupdate.mark_cons (by decide))).mark_cons (by decide))

theorem neutral_initial {v : Variable} (h : ∀ e ∈ v.initial, Neutral (e.tokens c)) :
    Neutral (v.initialTokens c) := by
  rw [Variable.initialTokens]
  cases hinitial : v.initial with
  | some e => exact h e hinitial
  | none => exact (plain_typeDefault v.type).neutral

/-- The lines of a statement are scanned as its tokens and laid out, by induction on the
statement. -/
theorem fits_lines {s : Statement} (h : Scannable s) : Fits (s.lines c) (s.tokens c) := by
  induction s with
  | block body ih =>
    rw [Statement.lines, Statement.tokens]
    exact fits_all (fun t ht => ih t ht (h.mono (Statement.nodes_subset_block ht)))
  | branch condition consequent alternate ihc iha =>
    have hscan : Scans (condition.render c) (condition.tokens c) := h.scans List.mem_cons_self
    have hneutral : Neutral (condition.tokens c) := h.neutral List.mem_cons_self
    have hbody := ihc (h.mono (Statement.nodes_subset_consequent condition consequent alternate))
    cases alternate with
    | none =>
      have hlines := fits_head "if (" "if" (by decide) (by decide) hscan hneutral hbody shuts_close
      simpa [Statement.lines, Statement.tokens, Statement.bracedTokens] using hlines
    | some alternate =>
      have hinside := Statement.nodes_subset_alternate condition consequent alternate
      have hotherwise := shuts_otherwise head_lines (iha alternate rfl (h.mono hinside))
      have hlines := fits_head "if (" "if" (by decide) (by decide) hscan hneutral hbody hotherwise
      simpa [Statement.lines, Statement.tokens, Statement.bracedTokens] using hlines
  | forLoop init condition update body ih =>
    have hclause (clause : Option Expression)
        (hclause : clause = init ∨ clause = condition ∨ clause = update) :
        Scans (Statement.clause c clause) (Statement.clauseTokens c clause) := by
      refine scans_clause (fun e he => h.scans ?_)
      rcases hclause with rfl | rfl | rfl <;> simp_all [Statement.expressions]
    have hscan := (hclause init (by simp)).semicolon
      ((hclause condition (by simp)).semicolon (hclause update (by simp)))
    have hlines := fits_head "for (" "for" (by decide) (by decide) hscan
      (neutral_clauses fun e he => h.neutral he) (ih (h.mono (List.subset_cons_self _ _)))
      shuts_close
    simpa [Statement.lines, Statement.tokens, Statement.bracedTokens, String.append_assoc]
      using hlines
  | whileLoop condition body ih =>
    have hlines := fits_head "while (" "while" (by decide) (by decide)
      (h.scans (c := c) List.mem_cons_self) (h.neutral List.mem_cons_self)
      (ih (h.mono (List.subset_cons_self _ _))) shuts_close
    simpa [Statement.lines, Statement.tokens, Statement.bracedTokens] using hlines
  | returns value =>
    cases value with
    | none =>
      rw [Statement.lines, Statement.tokens]
      exact fits_line (lineScans_fixed (by decide)) neutral_semicolon (by decide)
    | some value =>
      have hmem : value ∈ (Statement.returns (some value)).expressions := List.mem_cons_self
      have hword : steady "return ".toList = true ∧
          scan "return ".toList = [.word "return".toList] := by decide
      rw [Statement.lines, Statement.tokens, String.append_assoc]
      exact fits_line ((h.scans hmem).lineScans.prepend (scan_fixed hword))
        ((h.neutral hmem).append neutral_semicolon) (opens_append (by decide))
  | breaks =>
    rw [Statement.lines, Statement.tokens]
    exact fits_line (lineScans_fixed (by decide)) neutral_semicolon (by decide)
  | continues =>
    rw [Statement.lines, Statement.tokens]
    exact fits_line (lineScans_fixed (by decide)) neutral_semicolon (by decide)
  | evaluate expression =>
    have hmem : expression ∈ (Statement.evaluate expression).expressions := List.mem_cons_self
    have hopens : opens (expression.render c) = true :=
      opens_render ((h.wellFormed _ (Statement.self_mem_nodes _)).1 _ hmem)
    rw [Statement.lines, Statement.tokens]
    exact fits_line (h.scans hmem).lineScans ((h.neutral hmem).append neutral_semicolon)
      (opens_append hopens)
  | declare declared =>
    have hname : Settings.isIdentifier declared.name = true :=
      (h.wellFormed _ (Statement.self_mem_nodes _)).2
    have hmem {e : Expression} (he : e ∈ declared.initial) :
        e ∈ (Statement.declare declared).expressions := Option.mem_toList.mpr he
    have hinitial : Scans (declared.renderInitial c) (declared.initialTokens c) :=
      scans_initial fun e he => h.scans (hmem he)
    have hneutral : Neutral (declared.initialTokens c) :=
      neutral_initial fun e he => h.neutral (hmem he)
    have hscan : LineScans ("let " ++ declared.name ++ " = " ++ declared.renderInitial c ++ ";")
        (.word "let".toList :: .word declared.name.toList :: .mark ['=']
          :: (declared.initialTokens c ++ [.mark [';']])) := by
      intro rest
      have hsplit : ("let " ++ declared.name ++ " = " ++ declared.renderInitial c ++ ";").toList
          ++ '\n' :: rest
            = "let ".toList ++ (declared.name.toList ++ ' ' :: ("= ".toList
              ++ ((declared.renderInitial c ++ ";").toList ++ '\n' :: rest))) := by
        simp
      have hlet : steady "let ".toList = true ∧ scan "let ".toList = [.word "let".toList] := by
        decide
      have hequals : steady "= ".toList = true ∧ scan "= ".toList = [.mark ['=']] := by decide
      rw [hsplit, scan_fixed hlet, scan_word hname (by simp; decide), scan_blank _ rfl,
        scan_fixed hequals, hinitial.lineScans]
      simp
    have hline : Neutral (.word "let".toList :: .word declared.name.toList :: .mark ['=']
        :: (declared.initialTokens c ++ [.mark [';']])) :=
      (((hneutral.append neutral_semicolon).mark_cons (by decide)).word_cons _).word_cons _
    have hopens : opens ("let " ++ declared.name ++ " = " ++ declared.renderInitial c ++ ";") = true := by
      rw [String.append_assoc, String.append_assoc, String.append_assoc]
      exact opens_append (by decide)
    rw [Statement.lines, Statement.tokens]
    exact fits_line hscan hline hopens
  | unsupported kind =>
    rw [Statement.lines, Statement.tokens]
    exact fits_line (lineScans_remark (h.statements kind List.mem_cons_self))
      (fun _ _ => rfl) (opens_append (by decide))

end JavaScript

end Advisor
