import Advisor.Proofs.JavaScript.Expression

/-!
# Grouping of assignments

An assignment writes no brackets around itself, and neither does what it is an operand of. It keeps
its place in the tree exactly where something else writes them: an operator that stands outside all
brackets of an operand's text takes more, or less, than the operand.
-/

namespace Advisor

open JavaScript

namespace Expression

def isAssignment : Expression → Bool
  | assignment _ _ _ => true
  | _ => false

/-- The operands of a node that have to bind more tightly than an assignment. -/
def tightOperands : Expression → List Expression
  | binary _ left right => [left, right]
  | unary _ _ operand => [operand]
  | conditional condition _ _ => [condition]
  | element array _ => [array]
  | _ => []

/-- Whether an assignment can be reached without going through brackets. -/
def assignsOpenly : Expression → Bool
  | assignment _ _ _ => true
  | unary _ _ operand => operand.assignsOpenly
  | element array _ => array.assignsOpenly
  | _ => false

private theorem mem_nodes_of_mem_tightOperands {e o : Expression} (h : o ∈ e.tightOperands) :
    o ∈ e.nodes := by
  have hself := self_mem_nodes o
  cases e with
  | binary operator left right =>
    obtain rfl | rfl : o = left ∨ o = right := by simpa [tightOperands] using h
    · simp [nodes, hself]
    · simp [nodes, hself]
  | unary operator leading operand =>
    obtain rfl : o = operand := by simpa [tightOperands] using h
    simp [nodes, hself]
  | conditional condition consequent alternate =>
    obtain rfl : o = condition := by simpa [tightOperands] using h
    simp [nodes, hself]
  | element array index =>
    obtain rfl : o = array := by simpa [tightOperands] using h
    simp [nodes, hself]
  | _ => simp [tightOperands] at h

private theorem exists_of_assignsOpenly {e : Expression} (h : e.assignsOpenly = true) :
    e.isAssignment = true ∨ ∃ n ∈ e.nodes, ∃ o ∈ n.tightOperands, o.isAssignment = true := by
  induction e with
  | assignment operator left right => exact Or.inl rfl
  | unary operator leading operand ih =>
    right
    rcases ih h with hassign | ⟨n, hn, hassign⟩
    · exact ⟨_, self_mem_nodes _, operand, List.mem_cons_self, hassign⟩
    · exact ⟨n, List.mem_cons_of_mem _ hn, hassign⟩
  | element array index ih =>
    right
    rcases ih h with hassign | ⟨n, hn, hassign⟩
    · exact ⟨_, self_mem_nodes _, array, List.mem_cons_self, hassign⟩
    · exact ⟨n, List.mem_cons_of_mem _ (List.mem_append_left _ hn), hassign⟩
  | _ => simp [assignsOpenly] at h

end Expression

namespace JavaScript

variable {c : Context}

private theorem assignsAt_memberTokens (name : String) (depth : Nat) (rest : List Token) :
    assignsAt depth (memberTokens name ++ rest) = assignsAt depth rest := by
  have hcloses : closes 0 (memberTokens name) = true := rfl
  exact assignsAt_append hcloses depth rest

theorem Written.assignsAt_append {name text : String} {ts : List Token} (h : Written name text ts)
    (depth : Nat) (rest : List Token) : assignsAt depth (ts ++ rest) = assignsAt depth rest := by
  cases h with
  | member => exact assignsAt_memberTokens name depth rest
  | bare => rfl
  | plain hplain => exact JavaScript.assignsAt_append hplain.closes depth rest

theorem Numeral.assignsAt_append {ts : List Token} (h : Numeral ts) (depth : Nat)
    (rest : List Token) : assignsAt depth (ts ++ rest) = assignsAt depth rest := by
  have hsign : closes 0 [.mark ['-']] = true := by decide
  induction h with
  | digits | named => rfl
  | negative _ ih => exact (JavaScript.assignsAt_append hsign depth _).trans ih

private theorem assignsAt_open {mark : List Char} (h : mark ∈ opening) (depth : Nat)
    (rest : List Token) :
    assignsAt depth (.mark mark :: rest) = assignsAt (depth + 1) rest := by
  rw [assignsAt, if_pos (List.contains_iff_mem.mpr h)]

private theorem assignsAt_close {mark : List Char} (h : mark ∈ closing) (depth : Nat)
    (rest : List Token) :
    assignsAt (depth + 1) (.mark mark :: rest) = assignsAt depth rest := by
  have hopen : ∀ mark ∈ closing, ¬ opening.contains mark = true := by decide
  rw [assignsAt, if_neg (hopen mark h), if_pos (List.contains_iff_mem.mpr h), Nat.add_sub_cancel]

private theorem assignsAt_mark {mark : List Char} (h : mark ∉ opening ++ closing ++ assignmentMarks)
    (depth : Nat) (rest : List Token) :
    assignsAt depth (.mark mark :: rest) = assignsAt depth rest := by
  simp only [List.mem_append, not_or] at h
  obtain ⟨⟨hopen, hclose⟩, hassign⟩ := h
  rw [assignsAt, if_neg (by simpa using hopen), if_neg (by simpa using hclose)]
  simp [hassign]

private theorem assignsAt_operator {operator : String} (h : operator ∈ Operator.assignment)
    (depth : Nat) (rest : List Token) :
    assignsAt depth (.mark operator.toList :: rest) = (depth == 0 || assignsAt depth rest) := by
  obtain ⟨-, -, hbracket, hassign⟩ := mark_of_assignment operator h
  obtain ⟨hopen, hclose⟩ := by simpa only [List.mem_append, not_or] using hbracket
  rw [assignsAt, if_neg (by simpa using hopen), if_neg (by simpa using hclose)]
  simp [hassign]

private theorem assignsAt_arguments {es : List Expression} (depth : Nat) (rest : List Token)
    (h : ∀ e ∈ es, ∀ rest, assignsAt (depth + 1) (e.tokens c ++ rest) = assignsAt (depth + 1) rest) :
    assignsAt (depth + 1) ([Token.mark [',']].intercalate (Expression.tokensAll c es) ++ rest)
      = assignsAt (depth + 1) rest := by
  induction es with
  | nil => rfl
  | cons e es ih =>
    have hrest := ih (fun f hf => h f (List.mem_cons_of_mem e hf))
    cases es with
    | nil =>
      rw [Expression.tokensAll, Expression.tokensAll, List.intercalate_singleton]
      exact h e List.mem_cons_self rest
    | cons f es =>
      simp only [Expression.tokensAll] at hrest ⊢
      rw [List.intercalate_cons_cons, List.append_assoc, List.append_assoc,
        h e List.mem_cons_self, List.singleton_append, assignsAt_mark (by decide), hrest]

/-- In the tokens of an expression an assignment operator stands outside all brackets exactly if an
assignment can be reached without going through brackets. -/
theorem assignsAt_tokens {e : Expression} (h : e.WellFormed) (depth : Nat) (rest : List Token) :
    assignsAt depth (e.tokens c ++ rest)
      = ((depth == 0 && e.assignsOpenly) || assignsAt depth rest) := by
  induction e generalizing depth rest with
  | number value =>
    simp [Expression.tokens, (numeral_numberTokens value).assignsAt_append, Expression.assignsOpenly]
  | text value => simp [Expression.tokens, assignsAt, Expression.assignsOpenly]
  | boolean value => simp [Expression.tokens, assignsAt, Expression.assignsOpenly]
  | identifier name =>
    simp [Expression.tokens, (written_identifier name).assignsAt_append, Expression.assignsOpenly]
  | binary operator left right ihl ihr =>
    obtain ⟨hop, hl, hr⟩ := Expression.wellFormed_binary.mp h
    obtain ⟨-, -, hmark⟩ := mark_of_binary operator hop
    simp only [Expression.tokens, List.cons_append, List.append_assoc, List.nil_append]
    rw [assignsAt_open (by decide), ihl hl, assignsAt_mark hmark, ihr hr, assignsAt_close (by decide)]
    simp [Expression.assignsOpenly]
  | unary operator leading operand ih =>
    cases leading with
    | true =>
      obtain ⟨hop, hwell⟩ := Expression.wellFormed_leading.mp h
      obtain ⟨-, -, hmark, -⟩ := mark_of_leading operator hop
      simp only [Expression.tokens, List.cons_append]
      rw [assignsAt_mark hmark, ih hwell, Expression.assignsOpenly]
    | false =>
      obtain ⟨hop, hwell⟩ := Expression.wellFormed_trailing.mp h
      obtain ⟨-, -, hmark⟩ := mark_of_trailing operator hop
      simp only [Expression.tokens, List.append_assoc, List.singleton_append]
      rw [ih hwell, assignsAt_mark hmark, Expression.assignsOpenly]
  | assignment operator left right ihl ihr =>
    obtain ⟨hop, hl, hr⟩ := Expression.wellFormed_assignment.mp h
    simp only [Expression.tokens, List.append_assoc, List.cons_append]
    rw [ihl hl, assignsAt_operator hop, ihr hr, Expression.assignsOpenly]
    cases depth <;> simp
  | conditional condition consequent alternate ihc ihl ihr =>
    obtain ⟨hc, hl, hr⟩ := Expression.wellFormed_conditional.mp h
    simp only [Expression.tokens, List.cons_append, List.append_assoc, List.nil_append]
    rw [assignsAt_open (by decide), ihc hc, assignsAt_mark (by decide), ihl hl,
      assignsAt_mark (by decide), ihr hr, assignsAt_close (by decide)]
    simp [Expression.assignsOpenly]
  | call callee arguments ih =>
    obtain ⟨-, hwell⟩ := Expression.wellFormed_call.mp h
    have hinside : ∀ e ∈ arguments, ∀ rest,
        assignsAt (depth + 1) (e.tokens c ++ rest) = assignsAt (depth + 1) rest := by
      intro e he rest
      rw [ih e he (hwell e he)]
      simp
    simp only [Expression.tokens, List.append_assoc, List.cons_append, List.nil_append]
    rw [(written_callee callee).assignsAt_append, assignsAt_open (by decide), assignsAt_arguments depth _ hinside,
      assignsAt_close (by decide)]
    simp [Expression.assignsOpenly]
  | element array index iha ihi =>
    obtain ⟨ha, hi⟩ := Expression.wellFormed_element.mp h
    simp only [Expression.tokens, List.append_assoc, List.cons_append, List.nil_append]
    rw [iha ha, assignsAt_open (by decide), ihi hi, assignsAt_close (by decide),
      Expression.assignsOpenly]
    simp
  | unsupported kind => simp [Expression.tokens, assignsAt, Expression.assignsOpenly]

private theorem assignsOutside_render {e : Expression} (h : e.WellFormed)
    (hkinds : ∀ kind ∈ e.kinds, ¬ ['*', '/'] <:+: kind.toList) :
    assignsOutside (e.render c) = e.assignsOpenly := by
  have hscan := scans_render (c := c) h hkinds [] stops_nil
  have htokens := assignsAt_tokens (c := c) h 0 []
  rw [List.append_nil] at hscan
  rw [assignsOutside, hscan, scan_nil, htokens]
  simp [assignsAt]

/-- No operand that has to bind more tightly than an assignment shows an assignment operator outside
all brackets, exactly if none of them is an assignment. -/
theorem operands_grouped_iff (c : Context) {e : Expression} (h : e.WellFormed)
    (hkinds : ∀ kind ∈ e.kinds, ¬ ['*', '/'] <:+: kind.toList) :
    (∀ n ∈ e.nodes, ∀ o ∈ n.tightOperands, assignsOutside (o.render c) = false) ↔
      ∀ n ∈ e.nodes, ∀ o ∈ n.tightOperands, o.isAssignment = false := by
  have hinside {n o : Expression} (hn : n ∈ e.nodes) (ho : o ∈ n.tightOperands) :
      o.nodes ⊆ e.nodes :=
    Expression.nodes_subset
      (Expression.nodes_subset hn (Expression.mem_nodes_of_mem_tightOperands ho))
  have htext {n o : Expression} (hn : n ∈ e.nodes) (ho : o ∈ n.tightOperands) :
      assignsOutside (o.render c) = o.assignsOpenly :=
    assignsOutside_render (h.mono (hinside hn ho))
      (fun kind hkind => hkinds kind (Expression.kinds_mono (hinside hn ho) hkind))
  constructor
  · intro hgrouped n hn o ho
    have hfree := hgrouped n hn o ho
    rw [htext hn ho] at hfree
    cases o with
    | assignment => exact absurd hfree Bool.true_eq_false.mp
    | _ => rfl
  · intro hfree n hn o ho
    rw [htext hn ho, Bool.eq_false_iff]
    intro hopen
    rcases Expression.exists_of_assignsOpenly hopen with hassign | ⟨m, hm, p, hp, hassign⟩
    · rw [hfree n hn o ho] at hassign
      exact Bool.false_ne_true hassign
    · rw [hfree m (hinside hn ho hm) p hp] at hassign
      exact Bool.false_ne_true hassign

def bareContext : Context := ⟨⟨[], [], []⟩, Settings.standard⟩

/-- The test `-lots < sizeof` of a script, one side of which is not supported. -/
def sizeTest : Expression :=
  .binary "<" (.unary "-" true (.identifier "lots")) (.unsupported "SizeofExpression")

theorem sizeTest_grouped : sizeTest.WellFormed ∧ sizeTest.kinds = ["SizeofExpression"] ∧
    ∀ n ∈ sizeTest.nodes, ∀ o ∈ n.tightOperands,
      assignsOutside (o.render bareContext) = false := by
  have hkind : sizeTest.kinds = ["SizeofExpression"] := rfl
  have hkinds : ∀ kind ∈ sizeTest.kinds, ¬ ['*', '/'] <:+: kind.toList := by
    rw [hkind, List.forall_mem_singleton]
    exact not_infix_of_not_mem (by decide)
  have hnone : ∀ n ∈ sizeTest.nodes, ∀ o ∈ n.tightOperands, o.isAssignment = false := by decide
  exact ⟨by decide, hkind, (operands_grouped_iff bareContext (by decide) hkinds).mpr hnone⟩

/-- The test `(handle = iMA()) == INVALID_HANDLE` of a script. -/
def handleTest : Expression :=
  .binary "==" (.assignment "=" (.identifier "handle") (.call "iMA" []))
    (.identifier "INVALID_HANDLE")

/-- In its text the comparison belongs to what is assigned. -/
theorem handleTest_ungrouped :
    handleTest.WellFormed ∧
      handleTest.render bareContext = "(handle = this.api.iMA() == -1)" ∧
      ∃ n ∈ handleTest.nodes, ∃ o ∈ n.tightOperands,
        assignsOutside (o.render bareContext) = true := by
  decide +kernel

end JavaScript

end Advisor
