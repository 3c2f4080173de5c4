import Advisor.Proofs.JavaScript.Expression

/-!
# Expressions inside statements

The text of an expression can stand at the beginning of a statement, where no keyword is read from
it, and in a clause that a semicolon ends, since it has none outside of its literals and comments.
-/

namespace Advisor

namespace Expression

def name? : Expression → Option String
  | identifier name => some name
  | call callee _ => some callee
  | _ => none

/-- The names that the expression refers to. -/
def names (e : Expression) : List String := e.nodes.filterMap name?

section

attribute [local simp] names nodes name?

variable {operator name callee : String} {l r e : Expression} {es : List Expression}

private theorem names_identifier : (identifier name).names = [name] := by simp

private theorem names_unary (leading : Bool) : (unary operator leading e).names = e.names := by
  simp [List.filterMap_cons]

private theorem names_assignment : (assignment operator l r).names = l.names ++ r.names := by
  simp [List.filterMap_cons]

private theorem names_call : (call callee es).names = callee :: es.flatMap names := by
  simp only [names, nodes, nodesAll_eq, List.filterMap_cons, name?, List.filterMap_flatMap]
  rfl

private theorem names_element : (element l r).names = l.names ++ r.names := by
  simp [List.filterMap_cons]

end

end Expression

namespace JavaScript

/-- What is behind a mark says nothing of the kind of the statement. -/
theorem keyword_append_mark {ts : List Token} (h : keyword ts = none) (mark : List Char)
    (us : List Token) : keyword (ts ++ .mark mark :: us) = none := by
  cases ts with
  | nil => rfl
  | cons t ts =>
    cases t with
    | word name =>
      cases ts with
      | nil => simpa [keyword] using h
      | cons u ts => cases u <;> simp_all [keyword]
    | remark body => simp [keyword] at h
    | number | text | mark | comment | junk => rfl

variable {c : Context}

private theorem keyword_word {name : List Char} (h : name ∉ statementWords) :
    keyword [.word name] = none :=
  if_neg h

theorem Written.keyword {name text : String} {ts : List Token} (h : Written name text ts)
    (hname : name.toList ∉ statementWords) : keyword ts = none := by
  cases h with
  | member => exact keyword_append_mark (keyword_word (by decide)) ['.'] [.word name.toList]
  | bare => exact keyword_word hname
  | plain hplain => exact hplain.keyword

theorem Numeral.keyword {ts : List Token} (h : Numeral ts) : keyword ts = none := by
  cases h with
  | digits | negative => rfl
  | named hname => exact keyword_word hname

/-- An expression without a statement word among its names is not taken for another statement. Only
its leftmost name counts, and the node that writes that puts a mark behind it. -/
theorem keyword_tokens {e : Expression} (h : ∀ name ∈ e.names, name.toList ∉ statementWords) :
    keyword (e.tokens c) = none := by
  induction e with
  | number value => exact (numeral_numberTokens value).keyword
  | text value => rfl
  | boolean value => cases value <;> exact keyword_word (by decide)
  | identifier name =>
    rw [Expression.names_identifier, List.forall_mem_singleton] at h
    exact (written_identifier name).keyword h
  | binary operator left right => rfl
  | unary operator leading operand ih =>
    rw [Expression.names_unary] at h
    cases leading with
    | true => rfl
    | false => exact keyword_append_mark (ih h) operator.toList []
  | assignment operator left right ihl =>
    rw [Expression.names_assignment, List.forall_mem_append] at h
    exact keyword_append_mark (ihl h.1) operator.toList _
  | conditional condition consequent alternate => rfl
  | call callee arguments =>
    rw [Expression.names_call, List.forall_mem_cons] at h
    exact keyword_append_mark ((written_callee callee).keyword h.1) ['('] _
  | element array index iha =>
    rw [Expression.names_element, List.forall_mem_append] at h
    exact keyword_append_mark (iha h.1) ['['] _
  | unsupported kind => rfl

private theorem mem_intercalate {sep t : Token} {tss : List (List Token)}
    (h : t ∈ [sep].intercalate tss) : t = sep ∨ ∃ ts ∈ tss, t ∈ ts := by
  induction tss with
  | nil => simp at h
  | cons ts tss ih =>
    cases tss with
    | nil =>
      rw [List.intercalate_singleton] at h
      exact Or.inr ⟨ts, List.mem_cons_self, h⟩
    | cons us tss =>
      rw [List.intercalate_cons_cons, List.mem_append, List.mem_append, List.mem_singleton] at h
      rcases h with (hts | hsep) | hrest
      · exact Or.inr ⟨ts, List.mem_cons_self, hts⟩
      · exact Or.inl hsep
      · refine (ih hrest).imp_right ?_
        rintro ⟨vs, hvs, ht⟩
        exact ⟨vs, List.mem_cons_of_mem _ hvs, ht⟩

private theorem operator_ne_semicolon : ∀ operator ∈
    Operator.binary ++ Operator.assignment ++ Operator.leading ++ Operator.trailing,
    operator.toList ≠ [';'] := by
  decide +kernel

private theorem Written.not_semicolon {name text : String} {ts : List Token}
    (h : Written name text ts) :
    .mark [';'] ∉ ts := by
  cases h with
  | member => simp [memberTokens, fieldTokens]
  | bare => simp
  | plain hplain => exact hplain.semicolon

private theorem Numeral.not_semicolon {ts : List Token} (h : Numeral ts) : .mark [';'] ∉ ts := by
  induction h with
  | digits | named => simp
  | negative _ ih => simp [ih]

theorem semicolon_not_mem_tokens {e : Expression} (h : e.WellFormed) :
    .mark [';'] ∉ e.tokens c := by
  induction e with
  | number value => exact (numeral_numberTokens value).not_semicolon
  | text value => simp [Expression.tokens]
  | boolean value => simp [Expression.tokens]
  | identifier name => exact (written_identifier name).not_semicolon
  | binary operator left right ihl ihr =>
    obtain ⟨hop, hl, hr⟩ := Expression.wellFormed_binary.mp h
    have hmark := operator_ne_semicolon operator (by simp [hop])
    simp [Expression.tokens, ihl hl, ihr hr, hmark.symm]
  | unary operator leading operand ih =>
    cases leading with
    | true =>
      obtain ⟨hop, hwell⟩ := Expression.wellFormed_leading.mp h
      have hmark := operator_ne_semicolon operator (by simp [hop])
      simp [Expression.tokens, ih hwell, hmark.symm]
    | false =>
      obtain ⟨hop, hwell⟩ := Expression.wellFormed_trailing.mp h
      have hmark := operator_ne_semicolon operator (by simp [hop])
      simp [Expression.tokens, ih hwell, hmark.symm]
  | assignment operator left right ihl ihr =>
    obtain ⟨hop, hl, hr⟩ := Expression.wellFormed_assignment.mp h
    have hmark := operator_ne_semicolon operator (by simp [hop])
    simp [Expression.tokens, ihl hl, ihr hr, hmark.symm]
  | conditional condition consequent alternate ihc ihl ihr =>
    obtain ⟨hc, hl, hr⟩ := Expression.wellFormed_conditional.mp h
    simp [Expression.tokens, ihc hc, ihl hl, ihr hr]
  | call callee arguments ih =>
    have harguments : .mark [';'] ∉
        [Token.mark [',']].intercalate (Expression.tokensAll c arguments) := by
      rw [Expression.tokensAll_eq]
      intro hmem
      rcases mem_intercalate hmem with hcomma | ⟨ts, hts, hmem⟩
      · exact absurd hcomma (by decide)
      · obtain ⟨e, he, rfl⟩ := List.mem_map.mp hts
        exact ih e he ((Expression.wellFormed_call.mp h).2 e he) hmem
    simp [Expression.tokens, (written_callee callee).not_semicolon, harguments]
  | element array index iha ihi =>
    obtain ⟨ha, hi⟩ := Expression.wellFormed_element.mp h
    simp [Expression.tokens, iha ha, ihi hi]
  | unsupported kind => simp [Expression.tokens]

/-- A text that is scanned by itself, and with no semicolon in it. -/
def Clausal (text : String) : Prop := ∃ ts, Scans text ts ∧ .mark [';'] ∉ ts

theorem clausal_empty : Clausal "" := ⟨[], fun _ _ => rfl, List.not_mem_nil⟩

private theorem Clausal.ne_append {s t : String} (hs : Clausal s) (ht : Clausal t)
    (us : List Char) : t.toList ≠ s.toList ++ ';' :: us := by
  intro heq
  obtain ⟨ts, hts, -⟩ := hs
  obtain ⟨us', hus, hnot⟩ := ht
  have hscan := hus [] stops_nil
  rw [List.append_nil, heq, hts _ (stops_cons (by decide)), scan_bracket _ (by decide), scan_nil,
    List.append_nil] at hscan
  exact hnot (hscan ▸ by simp)

theorem Clausal.append_inj {s t : String} {us vs : List Char} (hs : Clausal s) (ht : Clausal t)
    (h : s.toList ++ ';' :: us = t.toList ++ ';' :: vs) : s = t ∧ us = vs := by
  rcases List.append_eq_append_iff.mp h with ⟨more, hmore, hrest⟩ | ⟨more, hmore, hrest⟩
  · cases more with
    | nil =>
      rw [List.append_nil] at hmore
      exact ⟨String.toList_inj.mp hmore.symm, (List.cons.inj hrest).2⟩
    | cons d more =>
      obtain ⟨rfl, -⟩ := List.cons.inj hrest
      exact absurd hmore (hs.ne_append ht more)
  · cases more with
    | nil =>
      rw [List.append_nil] at hmore
      exact ⟨String.toList_inj.mp hmore, (List.cons.inj hrest).2.symm⟩
    | cons d more =>
      obtain ⟨rfl, -⟩ := List.cons.inj hrest
      exact absurd hmore (ht.ne_append hs more)

/-- A text that can be a statement, or a clause of one. -/
structure Fragment (text : String) : Prop where
  opens : opens text = true
  scans : ∃ ts, Scans text ts ∧ keyword ts = none ∧ .mark [';'] ∉ ts

theorem Fragment.clausal {text : String} (h : Fragment text) : Clausal text := by
  obtain ⟨ts, hts, -, hnot⟩ := h.scans
  exact ⟨ts, hts, hnot⟩

theorem fragment_render {e : Expression} (h : e.WellFormed)
    (hkinds : ∀ kind ∈ e.kinds, ¬ ['*', '/'] <:+: kind.toList)
    (hnames : ∀ name ∈ e.names, name.toList ∉ statementWords) : Fragment (e.render c) where
  opens := opens_render h
  scans := ⟨e.tokens c, scans_render h hkinds, keyword_tokens hnames, semicolon_not_mem_tokens h⟩

end JavaScript

end Advisor
