import Advisor.Proofs.JavaScript.Program
import Mathlib.Data.List.TakeWhile

/-!
# Comments of a program

A script's name and the kinds of its unsupported nodes are written into comments without any
escape. The comments that the scanner finds are those that were written exactly if no kind and no
name contains what ends its comment.
-/

namespace Advisor.JavaScript

def Token.isComment : Token → Bool
  | .comment _ | .remark _ => true
  | _ => false

@[simp] theorem isComment_mark (mark : List Char) : (Token.mark mark).isComment = false := rfl

@[simp] theorem isComment_word (name : List Char) : (Token.word name).isComment = false := rfl

private theorem next_eq_comment {c : Char} {rest body : List Char}
    (h : (next c rest).1 = .comment body) :
    c = '/' ∧ ¬ ['*', '/'] <:+: body := by
  rw [next] at h
  split at h
  · simp at h
  split at h
  · next hopen =>
    cases hclose : closeComment rest.tail with
    | none => simp [hclose, closed] at h
    | some found =>
      obtain ⟨body', more⟩ := found
      obtain rfl : body' = body := by simpa [hclose, closed] using h
      exact ⟨hopen.1, not_infix_of_closeComment hclose⟩
  split at h
  · cases hclose : closeLiteral rest <;> simp [hclose, closed] at h
  split at h
  · simp at h
  split at h
  · simp at h
  · simp at h

private theorem next_eq_remark {c : Char} {rest body : List Char}
    (h : (next c rest).1 = .remark body) :
    c = '/' ∧ ∀ d ∈ body, isLineEnd d = false := by
  rw [next] at h
  split at h
  · next hopen =>
    obtain rfl := Token.remark.inj h
    exact ⟨hopen.1, fun d hd => by simpa using List.mem_takeWhile_imp hd⟩
  split at h
  · cases hclose : closeComment rest.tail <;> simp [hclose, closed] at h
  split at h
  · cases hclose : closeLiteral rest <;> simp [hclose, closed] at h
  split at h
  · simp at h
  split at h
  · simp at h
  · simp at h

/-- What the scanner takes for a comment cannot end earlier. -/
theorem not_infix_of_mem_scan {cs body : List Char} (h : .comment body ∈ scan cs) :
    ¬ ['*', '/'] <:+: body := by
  obtain ⟨c, rest, -, hnext⟩ := exists_next_of_mem_scan h
  exact (next_eq_comment hnext.symm).2

private theorem isLineEnd_of_mem_scan {cs body : List Char} (h : .remark body ∈ scan cs) :
    ∀ d ∈ body, isLineEnd d = false := by
  obtain ⟨c, rest, -, hnext⟩ := exists_next_of_mem_scan h
  exact (next_eq_remark hnext.symm).2

private theorem filter_scan_eq_nil {cs : List Char} (h : '/' ∉ cs) :
    (scan cs).filter Token.isComment = [] := by
  rw [List.filter_eq_nil_iff]
  intro t ht hcomment
  obtain ⟨c, rest, hsuffix, rfl⟩ := exists_next_of_mem_scan ht
  refine h (hsuffix.mem ?_)
  cases hnext : (next c rest).1 with
  | comment body => simp [(next_eq_comment hnext).1]
  | remark body => simp [(next_eq_remark hnext).1]
  | _ => simp [hnext, Token.isComment] at hcomment

private theorem scan_marker_iff {c : Context} {kind : String} {rest : List Char} :
    scan (((Expression.unsupported kind).render c).toList ++ rest)
        = .comment (Expression.markerBody kind) :: scan rest ↔
      ¬ ['*', '/'] <:+: kind.toList := by
  rw [Expression.render]
  refine ⟨fun h => ?_, scan_marker rest⟩
  have hmem : .comment (Expression.markerBody kind)
      ∈ scan ((Render.marker kind).toList ++ rest) := by simp [h]
  exact fun hcloses => not_infix_of_mem_scan hmem (infix_markerBody.mpr hcloses)

private theorem scan_remark_iff {c : Context} {depth : Nat} {kind : String} {rest : List Char} :
    scan (((Statement.unsupported kind).render c depth).toList ++ '\n' :: rest)
        = .remark (Statement.remarkBody kind) :: scan rest ↔
      ∀ d ∈ kind.toList, isLineEnd d = false := by
  have hrender : ((Statement.unsupported kind).render c depth).toList ++ '\n' :: rest
      = printed c.settings depth [⟨0, "// Unsupported statement: " ++ kind⟩] ++ rest := by
    rw [Statement.render, Statement.lines, ← toList_printAll _ _ (List.cons_ne_nil _ _),
      List.append_assoc, List.singleton_append]
  rw [hrender]
  constructor
  · intro h
    have hmem : .remark (Statement.remarkBody kind)
        ∈ scan (printed c.settings depth [⟨0, "// Unsupported statement: " ++ kind⟩] ++ rest) := by
      simp [h]
    exact isLineEnd_remarkBody.mp (isLineEnd_of_mem_scan hmem)
  · intro h
    have hlines := LinesScan.cons (l := ⟨0, _⟩) (lineScans_remark h) LinesScan.nil
    exact hlines c.settings depth rest

private theorem filter_intercalate {sep : Token} (h : sep.isComment = false)
    (tss : List (List Token)) :
    ([sep].intercalate tss).filter Token.isComment
      = tss.flatMap (·.filter Token.isComment) := by
  induction tss with
  | nil => rfl
  | cons ts tss ih =>
    cases tss with
    | nil => simp
    | cons us tss =>
      rw [List.intercalate_cons_cons, List.filter_append, List.filter_append, ih,
        List.filter_cons_of_neg (by simp [h]), List.filter_nil, List.append_nil, ← List.flatMap_cons]

end Advisor.JavaScript

namespace Advisor

open JavaScript

variable {c : Context}

namespace Expression

/-- The comments in the text of an expression, in order. -/
def comments (e : Expression) : List Token := e.kinds.map fun kind => .comment (markerBody kind)

private theorem filter_memberTokens (name : String) :
    (memberTokens name).filter Token.isComment = [] := rfl

private theorem filter_written {name text : String} {ts : List Token} (h : Written name text ts) :
    ts.filter Token.isComment = [] := by
  cases h with
  | member => exact filter_memberTokens name
  | bare => rfl
  | plain hplain => exact filter_scan_eq_nil hplain.slash

private theorem filter_numeral {ts : List Token} (h : Numeral ts) :
    ts.filter Token.isComment = [] := by
  induction h with
  | digits | named => rfl
  | negative _ ih => exact ih

private theorem filter_tokens (e : Expression) :
    (e.tokens c).filter Token.isComment = e.comments := by
  induction e with
  | number value => exact filter_numeral (numeral_numberTokens value)
  | text value => rfl
  | boolean value => rfl
  | identifier name => exact filter_written (written_identifier name)
  | binary operator left right ihl ihr =>
    simp [tokens, comments, ihl, ihr]
  | unary operator leading operand ih =>
    cases leading <;> simp [tokens, comments, ih]
  | assignment operator left right ihl ihr =>
    simp [tokens, comments, ihl, ihr]
  | conditional condition consequent alternate ihc ihl ihr =>
    simp [tokens, comments, ihc, ihl, ihr]
  | call callee arguments ih =>
    have harguments : ([Token.mark [',']].intercalate (arguments.map (tokens c))).filter
        Token.isComment = arguments.flatMap comments := by
      rw [filter_intercalate rfl, List.flatMap_map]
      exact List.flatMap_congr ih
    have hkinds : (call callee arguments).comments = arguments.flatMap comments := by
      rw [comments, kinds_call, List.map_flatMap]
      rfl
    simp [tokens, tokensAll_eq, filter_written (written_callee callee), harguments, hkinds]
  | element array index iha ihi =>
    simp [tokens, comments, iha, ihi]
  | unsupported kind => rfl

end Expression

namespace Variable

def comments (v : Variable) : List Token := v.initial.toList.flatMap Expression.comments

private theorem filter_initialTokens (v : Variable) :
    (v.initialTokens c).filter Token.isComment = v.comments := by
  rw [initialTokens, comments]
  cases v.initial with
  | some e => simp [Expression.filter_tokens]
  | none => exact filter_scan_eq_nil (plain_typeDefault v.type).slash

end Variable

namespace Statement

/-- The comments of a statement that are not in a statement inside it. -/
def ownComments (s : Statement) : List Token :=
  s.expressions.flatMap Expression.comments ++ s.kind?.toList.map fun kind =>
    .remark (remarkBody kind)

def comments (s : Statement) : List Token := s.nodes.flatMap ownComments

private theorem filter_clauseTokens (clause : Option Expression) :
    (clauseTokens c clause).filter Token.isComment
      = clause.toList.flatMap Expression.comments := by
  cases clause with
  | none => rfl
  | some e => simp [clauseTokens, Expression.filter_tokens]

@[simp] theorem filter_bracedTokens (ts : List Token) :
    (bracedTokens ts).filter Token.isComment = ts.filter Token.isComment := by
  simp [bracedTokens]

@[simp] theorem filter_headTokens (word : String) (ts : List Token) :
    (headTokens word ts).filter Token.isComment = ts.filter Token.isComment := by
  simp [headTokens]

private theorem filter_tokens (s : Statement) :
    (s.tokens c).filter Token.isComment = s.comments := by
  induction s with
  | block body ih =>
    have hbody : (block body).comments = body.flatMap comments := by
      rw [comments, nodes, nodesAll_eq, List.flatMap_cons, List.flatMap_assoc]
      rfl
    rw [hbody, tokens, tokensAll_eq, List.filter_flatMap]
    exact List.flatMap_congr ih
  | branch condition consequent alternate ihc iha =>
    cases alternate with
    | none =>
      simp [tokens, ihc, Expression.filter_tokens, comments, nodes, ownComments, expressions, kind?]
    | some alternate =>
      have halternate := iha alternate rfl
      have helse : (if alternate.isBranch then alternate.tokens c
          else bracedTokens (alternate.tokens c)).filter Token.isComment = alternate.comments := by
        split <;> simp [halternate]
      simp [tokens, ihc, helse, Expression.filter_tokens, comments, nodes, ownComments,
        expressions, kind?]
  | forLoop init condition update body ih =>
    simp [tokens, ih, filter_clauseTokens, comments, nodes, ownComments, expressions, kind?]
  | whileLoop condition body ih =>
    simp [tokens, ih, Expression.filter_tokens, comments, nodes, ownComments, expressions, kind?]
  | returns value =>
    cases value <;>
      simp [tokens, Expression.filter_tokens, comments, nodes, ownComments, expressions, kind?]
  | breaks => rfl
  | continues => rfl
  | evaluate expression =>
    simp [tokens, Expression.filter_tokens, comments, nodes, ownComments, expressions, kind?]
  | declare declared =>
    simp [tokens, Variable.filter_initialTokens, Variable.comments, comments, nodes, ownComments,
      expressions, kind?]
  | unsupported kind => rfl

end Statement

namespace Partition

def expressionKinds (p : Partition) : List String :=
  (p.inputs ++ p.globals).flatMap (fun v => v.initial.toList.flatMap Expression.kinds)
    ++ p.functions.flatMap (·.body.expressionKinds)

def statementKinds (p : Partition) : List String := p.functions.flatMap (·.body.kinds)

def comments (p : Partition) : List Token :=
  (p.inputs ++ p.globals).flatMap Variable.comments ++ p.functions.flatMap (·.body.comments)

end Partition

namespace JavaScript

private theorem filter_inputTokens (v : Variable) :
    (inputTokens c v).filter Token.isComment = v.comments := by
  simp [inputTokens, memberTokens, fieldTokens, Variable.filter_initialTokens]

private theorem filter_globalTokens (v : Variable) :
    (globalTokens c v).filter Token.isComment = v.comments := by
  simp [globalTokens, memberTokens, fieldTokens, Variable.filter_initialTokens]

private theorem filter_methodTokens (f : Function) :
    (methodTokens c f).filter Token.isComment = f.body.comments := by
  have hparameters : ([Token.mark [',']].intercalate
      (f.parameters.map fun p => [Token.word p.name.toList])).filter Token.isComment = [] := by
    rw [filter_intercalate rfl, List.flatMap_map]
    simp
  simp [methodTokens, hparameters, Statement.filter_tokens]

private theorem filter_classTokens (className : String) (p : Partition) :
    (classTokens className c p).filter Token.isComment = p.comments := by
  simp [classTokens, constructorTokens, apiTokens, memberTokens, fieldTokens,
    List.filter_flatMap, filter_inputTokens, filter_globalTokens, filter_methodTokens,
    Partition.comments]

/-- The comments that are written into a program, in order. -/
def programComments (script : Script) (settings : Settings) (now : String) : List Token :=
  .comment (headerBody script settings now) :: (Partition.ofDeclarations script.declarations).comments

private theorem filter_programTokens (script : Script) (settings : Settings) (now : String) :
    (programTokens script settings now).filter Token.isComment
      = programComments script settings now := by
  rw [programTokens, List.filter_cons_of_pos rfl, filter_classTokens, programComments]

theorem not_mem_padded {d : Char} (hd : d.isDigit = false) (width n : Nat) :
    d ∉ (Timestamp.padded width n).toList := by
  intro hmem
  rw [Timestamp.padded, String.toList_ofList, List.mem_append] at hmem
  rcases hmem with hzero | hdigit
  · rw [(List.mem_replicate.mp hzero).2] at hd
    exact absurd hd (by decide)
  · rw [Nat.isDigit_of_mem_toDigits (by decide) (by decide) hdigit] at hd
    exact absurd hd (by decide)

theorem not_mem_ofSeconds (seconds : Nat) : '/' ∉ (Timestamp.ofSeconds seconds).toList := by
  rw [Timestamp.ofSeconds]
  have hpadded (width n : Nat) : '/' ∉ (Timestamp.padded width n).toList :=
    not_mem_padded (by decide) width n
  simp only [String.toList_append, List.mem_append, hpadded, or_false, false_or]
  decide

theorem infix_headerBody {script : Script} {settings : Settings} {now : String}
    (hnow : '/' ∉ now.toList) :
    ['*', '/'] <:+: headerBody script settings now ↔
      ['*', '/'] <:+: (Translation.label script settings).toList := by
  have hbefore : '/' ∉ "*\n * Expert Advisor:".toList := by decide
  have hafter : '/' ∉ (" * Translated from MQL5 by ea-translator.\n"
      ++ (if settings.includeTimestamp then " * Generated at " ++ now ++ "\n" else "")
      ++ " ").toList := by
    split <;> simp [hnow]
  have hsplit : headerBody script settings now = "*\n * Expert Advisor:".toList
      ++ ' ' :: ((Translation.label script settings).toList
        ++ '\n' :: (" * Translated from MQL5 by ea-translator.\n"
          ++ (if settings.includeTimestamp then " * Generated at " ++ now ++ "\n" else "")
          ++ " ").toList) := by
    simp [headerBody]
  rw [hsplit]
  exact infix_between (by decide) (by decide) hbefore hafter

private theorem head?_scan_code {script : Script} {settings : Settings} {now : String}
    (hnow : '/' ∉ now.toList) :
    (scan (Translation.ofScript script settings now).code.toList).head?
        = some (.comment (headerBody script settings now)) ↔
      ¬ ['*', '/'] <:+: (Translation.label script settings).toList := by
  rw [← infix_headerBody hnow]
  constructor
  · intro h
    exact not_infix_of_mem_scan (List.mem_of_mem_head? h)
  · intro h
    rw [toList_code, scan_header _ h]
    rfl

/-- No text that comes from the script ends the comment that it is written into. -/
structure Contained (script : Script) (settings : Settings) : Prop where
  label : ¬ ['*', '/'] <:+: (Translation.label script settings).toList
  expressions : ∀ kind ∈ (Partition.ofDeclarations script.declarations).expressionKinds,
    ¬ ['*', '/'] <:+: kind.toList
  statements : ∀ kind ∈ (Partition.ofDeclarations script.declarations).statementKinds,
    ∀ d ∈ kind.toList, isLineEnd d = false

private theorem comment_mem_comments {p : Partition} {kind : String}
    (h : kind ∈ p.expressionKinds) :
    .comment (Expression.markerBody kind) ∈ p.comments := by
  rw [Partition.expressionKinds, List.mem_append, List.mem_flatMap, List.mem_flatMap] at h
  rw [Partition.comments, List.mem_append, List.mem_flatMap, List.mem_flatMap]
  rcases h with ⟨v, hv, h⟩ | ⟨f, hf, h⟩
  · obtain ⟨e, he, hkind⟩ := List.mem_flatMap.mp h
    exact Or.inl ⟨v, hv, List.mem_flatMap.mpr ⟨e, he, List.mem_map_of_mem hkind⟩⟩
  · obtain ⟨n, hn, h⟩ := List.mem_flatMap.mp h
    obtain ⟨e, he, hkind⟩ := List.mem_flatMap.mp h
    have hown : .comment (Expression.markerBody kind) ∈ n.ownComments :=
      List.mem_append_left _ (List.mem_flatMap.mpr ⟨e, he, List.mem_map_of_mem hkind⟩)
    exact Or.inr ⟨f, hf, List.mem_flatMap.mpr ⟨n, hn, hown⟩⟩

private theorem remark_mem_comments {p : Partition} {kind : String} (h : kind ∈ p.statementKinds) :
    .remark (Statement.remarkBody kind) ∈ p.comments := by
  obtain ⟨f, hf, h⟩ := List.mem_flatMap.mp h
  obtain ⟨n, hn, hkind⟩ := List.mem_filterMap.mp h
  have hown : .remark (Statement.remarkBody kind) ∈ n.ownComments :=
    List.mem_append_right _ (List.mem_map_of_mem (Option.mem_toList.mpr hkind))
  exact List.mem_append_right _
    (List.mem_flatMap.mpr ⟨f, hf, List.mem_flatMap.mpr ⟨n, hn, hown⟩⟩)

theorem Contained.scannablePartition {script : Script} {settings : Settings}
    (h : Contained script settings) (hscript : script.WellFormed) :
    ScannablePartition (Partition.ofDeclarations script.declarations) := by
  have settled := Partition.ofDeclarations_settled script.declarations
  have hvariable {v : Variable} (hv : v ∈ (Partition.ofDeclarations script.declarations).inputs
      ++ (Partition.ofDeclarations script.declarations).globals) : ScannableVariable v := by
    refine ⟨hscript _ (settled.variable_declared hv), fun e he kind hkind => ?_⟩
    have hkinds : kind ∈ v.initial.toList.flatMap Expression.kinds :=
      List.mem_flatMap.mpr ⟨e, Option.mem_toList.mpr he, hkind⟩
    exact h.expressions kind (List.mem_append_left _ (List.mem_flatMap.mpr ⟨v, hv, hkinds⟩))
  refine ⟨fun v hv => hvariable (List.mem_append_left _ hv),
    fun v hv => hvariable (List.mem_append_right _ hv), fun f hf => ?_⟩
  have hwell : f.WellFormed := hscript _ (settled.function_declared hf)
  refine ⟨hwell, hwell.2.2, fun kind hkind => ?_, fun kind hkind => ?_⟩
  · exact h.expressions kind (List.mem_append_right _ (List.mem_flatMap.mpr ⟨f, hf, hkind⟩))
  · exact h.statements kind (List.mem_flatMap.mpr ⟨f, hf, hkind⟩)

theorem isIdentifier_of_validate {settings : Settings} (h : settings.validate = .ok ()) :
    Settings.isIdentifier settings.className = true := by
  rw [Settings.validate] at h
  split at h
  · simp at h
  · next hclass => simpa using hclass

/-- Each comment ends where it has been closed exactly if what it contains does not end it; and the
comments of a program of names and operators that are in order are then those that were written. -/
theorem comments_contained_iff (script : Script) (settings : Settings) (seconds : Nat) :
    let now := Timestamp.ofSeconds seconds
    let code := (Translation.ofScript script settings now).code.toList
    ((scan code).head? = some (.comment (headerBody script settings now)) ↔
        ¬ ['*', '/'] <:+: (Translation.label script settings).toList) ∧
      (∀ (c : Context) kind rest,
        scan (((Expression.unsupported kind).render c).toList ++ rest)
            = .comment (Expression.markerBody kind) :: scan rest ↔
          ¬ ['*', '/'] <:+: kind.toList) ∧
      (∀ (c : Context) depth kind rest,
        scan (((Statement.unsupported kind).render c depth).toList ++ '\n' :: rest)
            = .remark (Statement.remarkBody kind) :: scan rest ↔
          ∀ d ∈ kind.toList, isLineEnd d = false) ∧
      (script.WellFormed → settings.validate = .ok () →
        ((scan code).filter Token.isComment = programComments script settings now ↔
          Contained script settings)) := by
  have hnow := not_mem_ofSeconds seconds
  refine ⟨head?_scan_code hnow, fun _ _ _ => scan_marker_iff, fun _ _ _ _ => scan_remark_iff,
    fun hscript hsettings => ⟨fun hcomments => ?_, fun h => ?_⟩⟩
  · have hmem {t : Token} (ht : t ∈ programComments script settings (Timestamp.ofSeconds seconds)) :
        t ∈ scan (Translation.ofScript script settings
          (Timestamp.ofSeconds seconds)).code.toList := by
      rw [← hcomments] at ht
      exact (List.mem_filter.mp ht).1
    constructor
    · rw [← infix_headerBody hnow]
      exact not_infix_of_mem_scan (hmem List.mem_cons_self)
    · intro kind hkind hcloses
      have hmarker := hmem (List.mem_cons_of_mem _ (comment_mem_comments hkind))
      exact not_infix_of_mem_scan hmarker (infix_markerBody.mpr hcloses)
    · intro kind hkind
      have hremark := hmem (List.mem_cons_of_mem _ (remark_mem_comments hkind))
      exact isLineEnd_remarkBody.mp (isLineEnd_of_mem_scan hremark)
  · have hheader := mt (infix_headerBody hnow).mp h.label
    rw [scan_program (isIdentifier_of_validate hsettings) hheader (h.scannablePartition hscript)]
    exact filter_programTokens script settings (Timestamp.ofSeconds seconds)

def gridScript : Script :=
  ⟨some "Grid EA", [.function ⟨"OnTick", [], .block [.unsupported "SwitchStatement",
    .evaluate (.unsupported "SizeofExpression")], none⟩]⟩

theorem gridScript_comments : gridScript.WellFormed ∧ Settings.standard.validate = .ok () ∧
    (scan (Translation.ofScript gridScript Settings.standard
      (Timestamp.ofSeconds 0)).code.toList).filter Token.isComment
        = [.comment (headerBody gridScript Settings.standard (Timestamp.ofSeconds 0)),
          .remark " Unsupported statement: SwitchStatement".toList,
          .comment " Unsupported expression: SizeofExpression ".toList] := by
  have hname : Settings.isIdentifier "OnTick" = true := by decide
  have hscript : gridScript.WellFormed := by
    simp [gridScript, Script.WellFormed, Declaration.WellFormed, Function.WellFormed,
      Statement.WellFormed, Statement.nodes, Statement.nodesAll, Statement.Proper,
      Statement.expressions, Expression.WellFormed, Expression.nodes, Expression.proper, hname]
  have hsettings : Settings.standard.validate = .ok () := by rfl
  have hkinds : (Partition.ofDeclarations gridScript.declarations).expressionKinds
      = ["SizeofExpression"] := by rfl
  have hremarks : (Partition.ofDeclarations gridScript.declarations).statementKinds
      = ["SwitchStatement"] := by rfl
  have hremark : "SwitchStatement".toList.all (!isLineEnd ·) = true := by decide
  have hcontained : Contained gridScript Settings.standard := by
    refine ⟨not_infix_of_not_mem (by decide), ?_, ?_⟩
    · rw [hkinds, List.forall_mem_singleton]
      exact not_infix_of_not_mem (by decide)
    · rw [hremarks, List.forall_mem_singleton]
      intro d hd
      simpa using List.all_eq_true.mp hremark d hd
  exact ⟨hscript, hsettings, ((comments_contained_iff gridScript Settings.standard 0).2.2.2
    hscript hsettings).mpr hcontained⟩

/-- The rest of a kind with a line break is read as a call. -/
theorem scan_brokenKind :
    scan ((Statement.unsupported "A\nalert(1)").render ⟨⟨[], [], []⟩, Settings.standard⟩ 0).toList
      = [.remark " Unsupported statement: A".toList, .word "alert".toList, .mark ['('],
        .number ['1'], .mark [')']] := by
  decide +kernel

end JavaScript

end Advisor
