import Advisor.Proofs.JavaScript.Expression

/-!
# Expressions leave no bracket open

The tokens of an expression close the brackets that they open, and none of those around them.
-/

namespace Advisor.JavaScript

variable {c : Context}

theorem neutral_fieldTokens (object name : String) : Neutral (fieldTokens object name) :=
  ((neutral_nil.word_cons name.toList).mark_cons (by decide)).word_cons object.toList

theorem neutral_memberTokens (name : String) : Neutral (memberTokens name) :=
  neutral_fieldTokens "this" name

theorem Written.neutral {name text : String} {ts : List Token} (h : Written name text ts) :
    Neutral ts := by
  cases h with
  | member => exact neutral_memberTokens name
  | bare => exact fun _ _ => rfl
  | plain hplain => exact hplain.neutral

theorem Numeral.neutral {ts : List Token} (h : Numeral ts) : Neutral ts := by
  induction h with
  | digits => exact fun _ _ => rfl
  | named => exact fun _ _ => rfl
  | negative _ ih => exact ih.mark_cons (by decide)

/-- An expression is balanced by itself: each node closes what it opens, around its operands. -/
theorem neutral_tokens {e : Expression} (h : e.WellFormed) : Neutral (e.tokens c) := by
  have hparentheses : (['('], [')']) ∈ opening.zip closing := by decide
  have hsquare : (['['], [']']) ∈ opening.zip closing := by decide
  have not_bracket {mark : List Char} (h : mark ∉ opening ++ closing ++ assignmentMarks) :
      mark ∉ opening ++ closing :=
    fun hmem => h (List.mem_append_left _ hmem)
  induction e with
  | number value => exact (numeral_numberTokens value).neutral
  | text value => exact fun _ _ => rfl
  | boolean value => exact fun _ _ => rfl
  | identifier name => exact (written_identifier name).neutral
  | binary operator left right ihl ihr =>
    obtain ⟨hop, hl, hr⟩ := Expression.wellFormed_binary.mp h
    have hmark := not_bracket (mark_of_binary operator hop).2.2
    intro stack rest
    simp only [Expression.tokens, List.cons_append, List.append_assoc, List.nil_append]
    rw [nest_open (by decide), ihl hl, nest_mark hmark, ihr hr, nest_close hparentheses]
  | unary operator leading operand ih =>
    cases leading with
    | true =>
      obtain ⟨hop, hwell⟩ := Expression.wellFormed_leading.mp h
      have hmark := not_bracket (mark_of_leading operator hop).2.2.1
      intro stack rest
      simp only [Expression.tokens, List.cons_append]
      rw [nest_mark hmark, ih hwell]
    | false =>
      obtain ⟨hop, hwell⟩ := Expression.wellFormed_trailing.mp h
      have hmark := not_bracket (mark_of_trailing operator hop).2.2
      intro stack rest
      simp only [Expression.tokens, List.append_assoc, List.singleton_append]
      rw [ih hwell, nest_mark hmark]
  | assignment operator left right ihl ihr =>
    obtain ⟨hop, hl, hr⟩ := Expression.wellFormed_assignment.mp h
    have hmark := (mark_of_assignment operator hop).2.2.1
    intro stack rest
    simp only [Expression.tokens, List.append_assoc, List.cons_append]
    rw [ihl hl, nest_mark hmark, ihr hr]
  | conditional condition consequent alternate ihc ihl ihr =>
    obtain ⟨hc, hl, hr⟩ := Expression.wellFormed_conditional.mp h
    intro stack rest
    simp only [Expression.tokens, List.cons_append, List.append_assoc, List.nil_append]
    rw [nest_open (by decide), ihc hc, nest_mark (by decide), ihl hl, nest_mark (by decide), ihr hr,
      nest_close hparentheses]
  | call callee arguments ih =>
    have harguments : Neutral ([Token.mark [',']].intercalate (Expression.tokensAll c arguments)) := by
      rw [Expression.tokensAll_eq]
      refine Neutral.intercalate (neutral_mark (by decide)) ?_
      intro ts hts
      obtain ⟨e, he, rfl⟩ := List.mem_map.mp hts
      exact ih e he ((Expression.wellFormed_call.mp h).2 e he)
    intro stack rest
    simp only [Expression.tokens, List.append_assoc, List.cons_append, List.nil_append]
    rw [(written_callee callee).neutral, nest_open (by decide), harguments, nest_close hparentheses]
  | element array index iha ihi =>
    obtain ⟨ha, hi⟩ := Expression.wellFormed_element.mp h
    intro stack rest
    simp only [Expression.tokens, List.append_assoc, List.cons_append, List.nil_append]
    rw [iha ha, nest_open (by decide), ihi hi, nest_close hsquare]
  | unsupported kind => exact fun _ _ => rfl

end Advisor.JavaScript
