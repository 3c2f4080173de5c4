import Advisor.Proofs.JavaScript.Catalogue

/-!
# Expressions as tokens

The tokens that an expression stands for follow its tree: those of its operands in order, with the
operator and the brackets that it writes itself. The scanner finds these tokens in its text.
-/

namespace Advisor.JavaScript

def magnitudeToken (x : Binary64) : Token :=
  if x.isNaN then .word "NaN".toList
  else if ¬ x.isFinite then .word "Infinity".toList
  else if x.magnitude = 0 then .number ['0']
  else .number (Decimal.shortest .away x.magnitude).positional

/-- A minus sign is a token of its own. -/
def numberTokens (x : Binary64) : List Token :=
  (if x.negative ∧ ¬ x.isNaN then [.mark ['-']] else []) ++ [magnitudeToken x]

theorem continuesNumber_of_mem_positional {d : Decimal} {c : Char} (h : c ∈ d.positional) :
    continuesNumber c = true := by
  have hdigit : ∀ n, ∀ e ∈ Nat.toDigits 10 n, continuesNumber e = true := by
    intro n e he
    simp [continuesNumber, Nat.isDigit_of_mem_toDigits (by decide) (by decide) he]
  have hzero : ∀ n, ∀ e ∈ List.replicate n '0', continuesNumber e = true := by
    intro n e he
    rw [(List.mem_replicate.mp he).2]
    rfl
  rw [Decimal.positional] at h
  split at h
  · rcases List.mem_append.mp h with h | h
    · exact hdigit _ c h
    · exact hzero _ c h
  split at h
  · rcases List.mem_append.mp h with h | h
    · exact hdigit _ c (List.mem_of_mem_take h)
    · rcases List.mem_cons.mp h with rfl | h
      · rfl
      · exact hdigit _ c (List.mem_of_mem_drop h)
  · rcases List.mem_cons.mp h with rfl | h
    · rfl
    rcases List.mem_cons.mp h with rfl | h
    · rfl
    rcases List.mem_append.mp h with h | h
    · exact hzero _ c h
    · exact hdigit _ c h

theorem positional_cons (d : Decimal) :
    ∃ c more, d.positional = c :: more ∧ c.isDigit = true := by
  obtain ⟨c, more, hdigits⟩ := List.exists_cons_of_ne_nil (Nat.toDigits_ne_nil (b := 10) (n := d.digits))
  have hmem : c ∈ Nat.toDigits 10 d.digits := by simp [hdigits]
  have hc : c.isDigit = true := Nat.isDigit_of_mem_toDigits (by decide) (by decide) hmem
  rw [Decimal.positional, hdigits]
  split
  · exact ⟨c, _, rfl, hc⟩
  split
  · next hshift =>
    obtain ⟨k, hk⟩ : ∃ k, (c :: more).length - (-d.exponent).toNat = k + 1 :=
      ⟨(c :: more).length - (-d.exponent).toNat - 1, by omega⟩
    rw [hk, List.take_succ_cons, List.cons_append]
    exact ⟨c, _, rfl, hc⟩
  · exact ⟨'0', _, rfl, rfl⟩

private theorem scan_signed {negative : Bool} {cs rest : List Char} {ts : List Token}
    (hhead : ∀ c ∈ (cs ++ rest).head?, c ≠ '-' ∧ c ≠ '=') (h : scan (cs ++ rest) = ts ++ scan rest) :
    scan ((if negative then "-" else "").toList ++ cs ++ rest)
      = (if negative then [.mark ['-']] else []) ++ ts ++ scan rest := by
  cases negative with
  | false => exact h
  | true =>
    have hminus : ∀ c ∈ (cs ++ rest).head?, c ∉ followers ['-'] := by
      intro c hc hmem
      have hfollow : followers ['-'] = ['-', '='] := by decide
      obtain ⟨hdash, hequals⟩ := hhead c hc
      have hsigns : c = '-' ∨ c = '=' := by simpa [hfollow] using hmem
      rcases hsigns with rfl | rfl
      · exact hdash rfl
      · exact hequals rfl
    have hdash : ['-'] ∈ marks := by decide
    have hmark := scan_mark (cs ++ rest) hdash hminus
    rw [h] at hmark
    exact hmark

private theorem scans_number (x : Binary64) : Scans (Render.number x) (numberTokens x) := by
  intro rest hrest
  rw [Render.number, numberTokens, magnitudeToken]
  split
  · next hnan =>
    rw [if_neg (by simp [hnan])]
    exact scan_word (by decide) (fun c hc => (hrest c hc).1)
  next hnumber =>
  have hsign : (x.negative ∧ ¬ x.isNaN) = (x.negative = true) := by simp [hnumber]
  simp only [hsign]
  split
  · rw [String.toList_append]
    exact scan_signed (by simp) (scan_word (by decide) (fun c hc => (hrest c hc).1))
  split
  · rw [String.toList_append]
    have hzero : ∀ d ∈ ([] : List Char), continuesNumber d = true := by simp
    exact scan_signed (by simp) (scan_number rfl hzero hrest)
  · rw [String.toList_append, String.toList_ofList]
    obtain ⟨c, more, hdigits, hc⟩ := positional_cons (Decimal.shortest .away x.magnitude)
    have hmore : ∀ d ∈ more, continuesNumber d = true := fun d hd =>
      continuesNumber_of_mem_positional (hdigits ▸ List.mem_cons_of_mem c hd)
    rw [hdigits]
    refine scan_signed ?_ (scan_number hc hmore hrest)
    intro d hd
    obtain rfl : c = d := by simpa using hd
    refine ⟨?_, ?_⟩
    · rintro rfl
      exact absurd hc (by decide)
    · rintro rfl
      exact absurd hc (by decide)

end Advisor.JavaScript

namespace Advisor

open JavaScript

namespace Context

def identifierTokens (c : Context) (name : String) : List Token :=
  if c.names.isGlobal name || (c.settings.qualifyInputs && c.names.isInput name) then
    memberTokens name
  else match Host.constant? name with
    | some target => scan target.toList
    | none => [.word name.toList]

def calleeTokens (c : Context) (name : String) : List Token :=
  match Host.function? name with
  | some target => scan target.toList
  | none =>
    if c.settings.qualifyUserFunctions && c.names.isFunction name then memberTokens name
    else [.word name.toList]

end Context

namespace Expression

/-- The comment that stands for a node that is not supported, without its marks. -/
def markerBody (kind : String) : List Char := (" Unsupported expression: " ++ kind ++ " ").toList

mutual

def tokens (c : Context) : Expression → List Token
  | number value => numberTokens value
  | text value => [.text value.toList]
  | boolean value => [.word (if value then "true" else "false").toList]
  | identifier name => c.identifierTokens name
  | binary operator left right =>
    .mark ['('] :: (left.tokens c ++ .mark operator.toList :: (right.tokens c ++ [.mark [')']]))
  | unary operator true operand => .mark operator.toList :: operand.tokens c
  | unary operator false operand => operand.tokens c ++ [.mark operator.toList]
  | assignment operator left right => left.tokens c ++ .mark operator.toList :: right.tokens c
  | conditional condition consequent alternate =>
    .mark ['('] :: (condition.tokens c ++ .mark ['?'] :: (consequent.tokens c ++ .mark [':']
      :: (alternate.tokens c ++ [.mark [')']])))
  | call callee arguments =>
    c.calleeTokens callee ++ .mark ['(']
      :: ([Token.mark [',']].intercalate (tokensAll c arguments) ++ [.mark [')']])
  | element array index => array.tokens c ++ .mark ['['] :: (index.tokens c ++ [.mark [']']])
  | unsupported kind => [.comment (markerBody kind)]

def tokensAll (c : Context) : List Expression → List (List Token)
  | [] => []
  | e :: rest => e.tokens c :: tokensAll c rest

end

theorem tokensAll_eq (c : Context) (es : List Expression) : tokensAll c es = es.map (tokens c) := by
  induction es with
  | nil => rfl
  | cons e rest ih => rw [tokensAll, ih, List.map_cons]

end Expression

namespace JavaScript

variable {c : Context}

/-- A name is written as a member, as it is, or as what the catalogue has in its place. -/
inductive Written (name : String) : String → List Token → Prop
  | member : Written name ("this." ++ name) (memberTokens name)
  | bare : Written name name [.word name.toList]
  | plain {target : String} : Plain target → Written name target (scan target.toList)

theorem written_identifier (name : String) :
    Written name (c.identifier name) (c.identifierTokens name) := by
  rw [Context.identifier, Context.identifierTokens]
  split
  · exact .member
  · cases hconstant : Host.constant? name with
    | none => exact .bare
    | some target => exact .plain (plain_constant hconstant)

theorem written_callee (name : String) :
    Written name (c.callee name) (c.calleeTokens name) := by
  rw [Context.callee, Context.calleeTokens]
  cases hfunction : Host.function? name with
  | some target => exact .plain (plain_function hfunction)
  | none =>
    dsimp only
    split
    · exact .member
    · exact .bare

theorem Written.scans {name text : String} {ts : List Token} (h : Written name text ts)
    (hname : Settings.isIdentifier name = true) : Scans text ts := by
  cases h with
  | member => exact scans_member hname
  | bare => exact scans_word hname
  | plain hplain => exact hplain.scans

/-- The tokens of a number: digits, or the name of a value that has none, with or without a sign. -/
inductive Numeral : List Token → Prop
  | digits (digits : List Char) : Numeral [.number digits]
  | named {name : List Char} : name ∉ statementWords → Numeral [.word name]
  | negative {ts : List Token} : Numeral ts → Numeral (.mark ['-'] :: ts)

theorem numeral_numberTokens (x : Binary64) : Numeral (numberTokens x) := by
  have hmagnitude : Numeral [magnitudeToken x] := by
    rw [magnitudeToken]
    split
    · exact .named (by decide)
    split
    · exact .named (by decide)
    split <;> exact .digits _
  rw [numberTokens]
  split
  · exact .negative hmagnitude
  · exact hmagnitude

private theorem scan_mark_cons {mark : List Char} {d : Char} (rest : List Char)
    (h : mark ∈ marks ∧ d ∉ followers mark) :
    scan (mark ++ d :: rest) = .mark mark :: scan (d :: rest) := by
  refine scan_mark _ h.1 ?_
  intro e he
  obtain rfl : d = e := by simpa using he
  exact h.2

theorem scan_bracket {d : Char} (rest : List Char) (h : [d] ∈ marks ∧ followers [d] = []) :
    scan (d :: rest) = .mark [d] :: scan rest := by
  have hrest : ∀ e ∈ rest.head?, e ∉ followers [d] := by simp [h.2]
  exact scan_mark rest h.1 hrest

private theorem scan_operator {operator : String} (rest : List Char)
    (h : operator ∈ Operator.binary ∨ operator ∈ Operator.assignment) :
    scan (operator.toList ++ ' ' :: rest) = .mark operator.toList :: scan rest := by
  have hmark : operator.toList ∈ marks ∧ ' ' ∉ followers operator.toList := by
    rcases h with h | h
    · obtain ⟨hmem, hblank, -⟩ := mark_of_binary operator h
      exact ⟨hmem, hblank⟩
    · obtain ⟨hmem, hblank, -⟩ := mark_of_assignment operator h
      exact ⟨hmem, hblank⟩
  rw [scan_mark_cons _ hmark, scan_blank _ rfl]

private theorem scan_trailing {operator : String} (rest : List Char)
    (h : operator ∈ Operator.trailing) :
    scan (operator.toList ++ rest) = .mark operator.toList :: scan rest := by
  obtain ⟨hmark, hfollow, -⟩ := mark_of_trailing operator h
  exact scan_mark rest hmark (by simp [hfollow])

/-- A leading operator is not continued by its operand, since a blank keeps two signs apart. -/
theorem scan_leading {operator operand : String} (rest : List Char)
    (h : operator ∈ Operator.leading) (hopens : opens operand = true) :
    scan ((operator ++ Render.gap operator operand ++ operand).toList ++ rest)
      = .mark operator.toList :: scan (operand.toList ++ rest) := by
  obtain ⟨hmark, hblank, -, -, hfollow⟩ := mark_of_leading operator h
  obtain ⟨d, more, hoperand, hblocked⟩ := opens_iff.mp hopens
  simp only [String.toList_append, List.append_assoc]
  by_cases hgap : Render.gap operator operand = " "
  · rw [hgap]
    exact (scan_mark_cons _ ⟨hmark, hblank⟩).trans (by rw [scan_blank _ rfl]; rfl)
  · have hnone : Render.gap operator operand = "" := by
      simpa [hgap] using Render.gap_mem operator operand
    have hd : d ∉ followers operator.toList := by
      intro hmem
      rcases of_decide_eq_true (List.all_eq_true.mp hfollow d hmem) with heq | ⟨hlast, hsign⟩
      · exact hblocked (by simp [blocked, heq])
      · apply hgap
        simp [Render.gap, hlast, hoperand, hsign]
    rw [hnone, hoperand]
    exact scan_mark_cons _ ⟨hmark, hd⟩

theorem opens_word {name : String} (h : Settings.isIdentifier name = true) : opens name = true := by
  obtain ⟨d, more, hname, hfirst, -⟩ := isIdentifier_iff.mp h
  have hblocked : blocked.all (!Settings.beginsIdentifier ·) = true := by decide
  refine opens_iff.mpr ⟨d, more, hname, fun hmem => ?_⟩
  simpa [hfirst] using List.all_eq_true.mp hblocked d hmem

private theorem opens_number (x : Binary64) : opens (Render.number x) = true := by
  have hsign {t : String} (ht : opens t = true) :
      opens ((if x.negative then "-" else "") ++ t) = true := by
    cases x.negative with
    | true => exact opens_append (by decide)
    | false => simpa using ht
  rw [Render.number]
  split
  · decide
  split
  · exact hsign (by decide)
  split
  · exact hsign (by decide)
  · obtain ⟨d, more, hdigits, hd⟩ := positional_cons (Decimal.shortest .away x.magnitude)
    have hblocked : blocked.all (!Char.isDigit ·) = true := by decide
    refine hsign (opens_iff.mpr ⟨d, more, by simpa using hdigits, fun hmem => ?_⟩)
    simpa [hd] using List.all_eq_true.mp hblocked d hmem

theorem Written.opens {name text : String} {ts : List Token} (h : Written name text ts)
    (hname : Settings.isIdentifier name = true) : opens text = true := by
  cases h with
  | member => exact opens_append (by decide)
  | bare => exact opens_word hname
  | plain hplain => exact hplain.opens

theorem opens_render {e : Expression} (h : e.WellFormed) : opens (e.render c) = true := by
  induction e with
  | number value =>
    rw [Expression.render]
    exact opens_number value
  | text value => simp [Expression.render, Render.text, opens, blocked]
  | boolean value => cases value <;> simp [Expression.render, opens, blocked]
  | identifier name =>
    rw [Expression.render]
    exact (written_identifier name).opens (Expression.wellFormed_identifier.mp h)
  | binary operator left right => simp [Expression.render, opens, blocked]
  | unary operator leading operand ih =>
    cases leading with
    | true =>
      obtain ⟨-, -, -, hopens, -⟩ :=
        mark_of_leading operator (Expression.wellFormed_leading.mp h).1
      rw [Expression.render]
      exact opens_append (opens_append hopens)
    | false =>
      rw [Expression.render]
      exact opens_append (ih (Expression.wellFormed_trailing.mp h).2)
  | assignment operator left right ihl =>
    rw [Expression.render]
    have hleft := ihl (Expression.wellFormed_assignment.mp h).2.1
    exact opens_append (opens_append (opens_append (opens_append hleft)))
  | conditional condition consequent alternate => simp [Expression.render, opens, blocked]
  | call callee arguments =>
    rw [Expression.render]
    have hcallee := (written_callee (c := c) callee).opens (Expression.wellFormed_call.mp h).1
    exact opens_append (opens_append (opens_append hcallee))
  | element array index iha =>
    rw [Expression.render]
    have harray := iha (Expression.wellFormed_element.mp h).1
    exact opens_append (opens_append (opens_append harray))
  | unsupported kind => simp [Expression.render, Render.marker, opens, blocked]

theorem infix_markerBody {kind : String} :
    ['*', '/'] <:+: Expression.markerBody kind ↔ ['*', '/'] <:+: kind.toList := by
  have hbefore : '/' ∉ " Unsupported expression:".toList := by decide
  have hsplit : Expression.markerBody kind
      = " Unsupported expression:".toList ++ ' ' :: (kind.toList ++ ' ' :: []) := by
    simp [Expression.markerBody]
  rw [hsplit]
  exact infix_between (by decide) (by decide) hbefore List.not_mem_nil

theorem scan_marker {kind : String} (rest : List Char) (h : ¬ ['*', '/'] <:+: kind.toList) :
    scan ((Render.marker kind).toList ++ rest)
      = .comment (Expression.markerBody kind) :: scan rest := by
  have hsplit : (Render.marker kind).toList ++ rest
      = '/' :: '*' :: (Expression.markerBody kind ++ '*' :: '/' :: rest) := by
    simp [Render.marker, Expression.markerBody]
  rw [hsplit]
  exact scan_comment rest (fun hcloses => h (infix_markerBody.mp hcloses))

theorem scan_join {α : Type} {text : α → String} {ts : α → List Token} {as : List α}
    (rest : List Char) (h : ∀ a ∈ as, Scans (text a) (ts a)) :
    scan ((Text.join ", " (as.map text)).toList ++ ')' :: rest)
      = [Token.mark [',']].intercalate (as.map ts) ++ scan (')' :: rest) := by
  induction as with
  | nil => rfl
  | cons a as ih =>
    have ha := h a List.mem_cons_self
    cases as with
    | nil =>
      simp only [List.map_cons, List.map_nil, Text.join, List.intercalate_singleton]
      exact ha _ (stops_cons (by decide))
    | cons b as =>
      have hrest := ih (fun d hd => h d (List.mem_cons_of_mem a hd))
      simp only [List.map_cons] at hrest ⊢
      have hcomma : (", " : String).toList = [',', ' '] := rfl
      rw [Text.join, List.intercalate_cons_cons, String.toList_append, String.toList_append, hcomma,
        List.append_assoc, List.append_assoc, List.cons_append, List.singleton_append,
        ha _ (stops_cons (by decide)), scan_bracket _ (by decide), scan_blank _ rfl, hrest]
      simp

/-- The text of a well-formed expression is scanned as its tokens. -/
theorem scans_render {e : Expression} (h : e.WellFormed)
    (hkinds : ∀ kind ∈ e.kinds, ¬ ['*', '/'] <:+: kind.toList) :
    Scans (e.render c) (e.tokens c) := by
  have stop (d : Char) (hd : (Settings.continuesIdentifier d || d == '.') = false)
      (rest : List Char) : Stops (d :: rest) := stops_cons hd
  induction e with
  | number value =>
    rw [Expression.render, Expression.tokens]
    exact scans_number value
  | text value =>
    rw [Expression.render, Expression.tokens]
    exact fun rest _ => scan_literal value rest
  | boolean value =>
    rw [Expression.render, Expression.tokens]
    cases value <;> exact scans_word (by decide)
  | identifier name =>
    rw [Expression.render, Expression.tokens]
    exact (written_identifier name).scans (Expression.wellFormed_identifier.mp h)
  | binary operator left right ihl ihr =>
    obtain ⟨hop, hl, hr⟩ := Expression.wellFormed_binary.mp h
    rw [Expression.kinds_binary, List.forall_mem_append] at hkinds
    have hleft := ihl hl hkinds.1
    have hright := ihr hr hkinds.2
    intro rest hrest
    have hsplit : ((Expression.binary operator left right).render c).toList ++ rest
        = '(' :: ((left.render c).toList ++ ' ' :: (operator.toList ++ ' ' ::
          ((right.render c).toList ++ ')' :: rest))) := by
      simp [Expression.render]
    rw [hsplit, scan_bracket _ (by decide), hleft _ (stop ' ' rfl _), scan_blank _ rfl,
      scan_operator _ (Or.inl hop), hright _ (stop ')' rfl _), scan_bracket _ (by decide)]
    simp [Expression.tokens]
  | unary operator leading operand ih =>
    cases leading with
    | true =>
      obtain ⟨hop, hwell⟩ := Expression.wellFormed_leading.mp h
      rw [Expression.kinds_unary] at hkinds
      intro rest hrest
      rw [Expression.render, Expression.tokens, scan_leading rest hop (opens_render hwell),
        ih hwell hkinds rest hrest, List.cons_append]
    | false =>
      obtain ⟨hop, hwell⟩ := Expression.wellFormed_trailing.mp h
      rw [Expression.kinds_unary] at hkinds
      intro rest hrest
      have hstop : Stops (operator.toList ++ rest) := by
        have hsigns : operator = "++" ∨ operator = "--" := by simpa [Operator.trailing] using hop
        rcases hsigns with rfl | rfl
        · exact stop '+' rfl ('+' :: rest)
        · exact stop '-' rfl ('-' :: rest)
      rw [Expression.render, String.toList_append, List.append_assoc, ih hwell hkinds _ hstop,
        scan_trailing rest hop]
      simp [Expression.tokens]
  | assignment operator left right ihl ihr =>
    obtain ⟨hop, hl, hr⟩ := Expression.wellFormed_assignment.mp h
    rw [Expression.kinds_assignment, List.forall_mem_append] at hkinds
    have hleft := ihl hl hkinds.1
    have hright := ihr hr hkinds.2
    intro rest hrest
    have hsplit : ((Expression.assignment operator left right).render c).toList ++ rest
        = (left.render c).toList ++ ' ' :: (operator.toList ++ ' ' ::
          ((right.render c).toList ++ rest)) := by
      simp [Expression.render]
    rw [hsplit, hleft _ (stop ' ' rfl _), scan_blank _ rfl, scan_operator _ (Or.inr hop),
      hright _ hrest]
    simp [Expression.tokens]
  | conditional condition consequent alternate ihc ihl ihr =>
    obtain ⟨hc, hl, hr⟩ := Expression.wellFormed_conditional.mp h
    rw [Expression.kinds_conditional, List.forall_mem_append, List.forall_mem_append] at hkinds
    have hcondition := ihc hc hkinds.1.1
    have hleft := ihl hl hkinds.1.2
    have hright := ihr hr hkinds.2
    intro rest hrest
    have hsplit : ((Expression.conditional condition consequent alternate).render c).toList ++ rest
        = '(' :: ((condition.render c).toList ++ ' ' :: (['?'] ++ ' ' ::
          ((consequent.render c).toList ++ ' ' :: ':' :: ' ' ::
            ((alternate.render c).toList ++ ')' :: rest)))) := by
      simp [Expression.render]
    rw [hsplit, scan_bracket _ (by decide), hcondition _ (stop ' ' rfl _), scan_blank _ rfl,
      scan_mark_cons _ (by decide), scan_blank _ rfl, hleft _ (stop ' ' rfl _), scan_blank _ rfl,
      scan_bracket _ (by decide), scan_blank _ rfl, hright _ (stop ')' rfl _),
      scan_bracket _ (by decide)]
    simp [Expression.tokens]
  | call callee arguments ih =>
    obtain ⟨hcallee, hwell⟩ := Expression.wellFormed_call.mp h
    rw [Expression.kinds_call] at hkinds
    have harguments : ∀ e ∈ arguments, Scans (e.render c) (e.tokens c) := fun e he =>
      ih e he (hwell e he) (fun kind hkind => hkinds kind (List.mem_flatMap.mpr ⟨e, he, hkind⟩))
    intro rest hrest
    have hsplit : ((Expression.call callee arguments).render c).toList ++ rest
        = (c.callee callee).toList ++ '(' ::
          ((Text.join ", " (Expression.renderAll c arguments)).toList ++ ')' :: rest) := by
      simp [Expression.render]
    rw [hsplit, (written_callee callee).scans hcallee _ (stop '(' rfl _), scan_bracket _ (by decide),
      Expression.renderAll_eq, scan_join rest harguments, scan_bracket _ (by decide)]
    simp [Expression.tokens, Expression.tokensAll_eq]
  | element array index iha ihi =>
    obtain ⟨ha, hi⟩ := Expression.wellFormed_element.mp h
    rw [Expression.kinds_element, List.forall_mem_append] at hkinds
    have harray := iha ha hkinds.1
    have hindex := ihi hi hkinds.2
    intro rest hrest
    have hsplit : ((Expression.element array index).render c).toList ++ rest
        = (array.render c).toList ++ '[' :: ((index.render c).toList ++ ']' :: rest) := by
      simp [Expression.render]
    rw [hsplit, harray _ (stop '[' rfl _), scan_bracket _ (by decide), hindex _ (stop ']' rfl _),
      scan_bracket _ (by decide)]
    simp [Expression.tokens]
  | unsupported kind =>
    rw [Expression.kinds_unsupported] at hkinds
    intro rest hrest
    rw [Expression.render, Expression.tokens, scan_marker rest (hkinds kind List.mem_cons_self),
      List.singleton_append]

end JavaScript

end Advisor
