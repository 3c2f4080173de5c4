import Advisor.Proofs.JavaScript.Fragment
import Advisor.Proofs.JavaScript.Program
import Advisor.Proofs.JavaScript.Separation
import Advisor.Proofs.Script.Bodies
import Advisor.Proofs.Script.Hole

/-!
# Regions between braces

A reader finds the regions of a text that braces enclose and the names that are declared in each.
For a method these are the bodies of the function, of its branches and of its loops, with all that
the blocks in them declare: a block has no braces of its own. So a name is declared twice in a region
exactly if a block declares it twice together with the blocks inside of it.
-/

namespace Advisor

namespace JavaScript

def braceMarks : List (List Char) := [['\x7b'], ['\x7d']]

def letWord : List Char := ['l', 'e', 't']

/-- The name at the beginning of the tokens, where comments do not count. -/
def nameAhead : List Token → Option (List Char)
  | .word name :: _ => some name
  | .comment _ :: rest | .remark _ :: rest => nameAhead rest
  | _ => none

/-- The regions that are open, of which the innermost has one name more. -/
def note (name : Option (List Char)) : List (List (List Char)) → List (List (List Char))
  | [] => []
  | names :: outer => (names ++ name.toList) :: outer

/-- The names that are declared in each region but in none inside of it, in the order in which the
regions end. Those of the regions that are open in front of the tokens are given, the innermost
first. -/
def regionsFrom : List (List (List Char)) → List Token → List (List (List Char))
  | _, [] => []
  | stack, .mark mark :: rest =>
    if mark = ['\x7b'] then regionsFrom ([] :: stack) rest
    else if mark = ['\x7d'] then stack.head?.toList ++ regionsFrom stack.tail rest
    else regionsFrom stack rest
  | stack, .word word :: rest =>
    regionsFrom (if word = letWord then note (nameAhead rest) stack else stack) rest
  | stack, _ :: rest => regionsFrom stack rest

def regions (ts : List Token) : List (List (List Char)) := regionsFrom [] ts

section Steps

variable {mark : List Char} (stack : List (List (List Char))) (rest : List Token)

private theorem regionsFrom_mark (h : mark ∉ braceMarks) :
    regionsFrom stack (.mark mark :: rest) = regionsFrom stack rest := by
  simp only [braceMarks, List.mem_cons, List.not_mem_nil, or_false, not_or] at h
  rw [regionsFrom, if_neg h.1, if_neg h.2]

private theorem regionsFrom_open :
    regionsFrom stack (.mark ['\x7b'] :: rest) = regionsFrom ([] :: stack) rest := by
  rw [regionsFrom, if_pos rfl]

private theorem regionsFrom_close (names : List (List Char)) :
    regionsFrom (names :: stack) (.mark ['\x7d'] :: rest) = names :: regionsFrom stack rest := by
  rw [regionsFrom, if_neg (by decide), if_pos rfl]
  rfl

private theorem regionsFrom_word_cons (word : List Char) : regionsFrom stack (.word word :: rest)
    = regionsFrom (if word = letWord then note (nameAhead rest) stack else stack) rest := by
  rw [regionsFrom]

private theorem regionsFrom_word {word : List Char} (h : word ≠ letWord) :
    regionsFrom stack (.word word :: rest) = regionsFrom stack rest := by
  rw [regionsFrom_word_cons, if_neg h]

end Steps

/-- In front of a mark the tokens neither begin nor end a region and declare nothing. -/
def Quiet (ts : List Token) : Prop :=
  ∀ stack mark rest, regionsFrom stack (ts ++ .mark mark :: rest)
    = regionsFrom stack (.mark mark :: rest)

private theorem quiet_nil : Quiet [] := fun _ _ _ => rfl

private theorem quiet_word (word : List Char) : Quiet [.word word] := by
  intro stack mark rest
  have hahead : nameAhead (.mark mark :: rest) = none := rfl
  have hnote : note none stack = stack := by
    cases stack <;> simp [note]
  rw [List.singleton_append, regionsFrom_word_cons, hahead, hnote, ite_self]

theorem Quiet.mark_cons {mark : List Char} {ts : List Token} (hmark : mark ∉ braceMarks)
    (h : Quiet ts) : Quiet (.mark mark :: ts) := by
  intro stack mark' rest
  rw [List.cons_append, regionsFrom_mark _ _ hmark, h]

private theorem Quiet.append_mark {mark : List Char} {ts us : List Token} (h : Quiet ts)
    (hmark : mark ∉ braceMarks) (h' : Quiet us) : Quiet (ts ++ .mark mark :: us) := by
  intro stack mark' rest
  rw [List.append_assoc, List.cons_append, h, regionsFrom_mark _ _ hmark, h']

private theorem quiet_intercalate {tss : List (List Token)} (h : ∀ ts ∈ tss, Quiet ts) :
    Quiet ([Token.mark [',']].intercalate tss) := by
  induction tss with
  | nil => exact quiet_nil
  | cons ts tss ih =>
    obtain ⟨hts, htss⟩ := List.forall_mem_cons.mp h
    cases tss with
    | nil => rwa [List.intercalate_singleton]
    | cons us tss =>
      rw [List.intercalate_cons_cons, List.append_assoc, List.singleton_append]
      exact hts.append_mark (by decide) (ih htss)

private theorem quiet_fieldTokens (object name : String) : Quiet (fieldTokens object name) :=
  (quiet_word object.toList).append_mark (by decide) (quiet_word name.toList)

/-- The tokens that begin or end a region or may declare a name. -/
def stirring : List Token := [.mark ['\x7b'], .mark ['\x7d'], .word letWord]

private theorem quiet_of_calm {ts : List Token} (h : ts.all (!stirring.contains ·) = true) :
    Quiet ts := by
  simp only [List.all_eq_true, Bool.not_eq_true', List.contains_eq_mem, decide_eq_false_iff_not]
    at h
  intro stack mark rest
  induction ts with
  | nil => rfl
  | cons t ts ih =>
    obtain ⟨ht, hts⟩ := List.forall_mem_cons.mp h
    rw [List.cons_append, ← ih hts]
    cases t with
    | mark m =>
      have hm : m ∉ braceMarks := by
        simp only [stirring, braceMarks, List.mem_cons, Token.mark.injEq] at ht ⊢
        grind
      exact regionsFrom_mark _ _ hm
    | word word =>
      have hword : word ≠ letWord := by
        rintro rfl
        simp [stirring] at ht
      exact regionsFrom_word _ _ hword
    | number | text | comment | remark | junk => rfl

private theorem calm_ofList (cs : List Char)
    (h : (scan cs).all (!stirring.contains ·) = true) :
    Quiet (scan (String.ofList cs).toList) := by
  rw [String.toList_ofList]
  exact quiet_of_calm h

private theorem quiet_constants : ∀ entry ∈ Host.constants, Quiet (scan entry.2.toList) := by
  simp only [Host.constants, List.forall_mem_cons, List.not_mem_nil, false_implies, implies_true,
    and_true]
  and_intros
  all_goals exact calm_ofList _ (by decide +kernel)

private theorem quiet_functions : ∀ entry ∈ Host.functions, Quiet (scan entry.2.toList) := by
  simp only [Host.functions, List.forall_mem_cons, List.not_mem_nil, false_implies, implies_true,
    and_true]
  and_intros
  all_goals exact calm_ofList _ (by decide +kernel)

private theorem quiet_typeDefaults : ∀ entry ∈ Host.typeDefaults, Quiet (scan entry.2.toList) := by
  simp only [Host.typeDefaults, List.forall_mem_cons, List.not_mem_nil, false_implies, implies_true,
    and_true]
  and_intros
  all_goals exact calm_ofList _ (by decide +kernel)

private theorem quiet_of_lookup {table : List (String × String)} {name target : String}
    (hquiet : ∀ entry ∈ table, Quiet (scan entry.2.toList)) (h : table.lookup name = some target) :
    Quiet (scan target.toList) := by
  obtain ⟨before, after, htable, -⟩ := List.lookup_eq_some_iff.mp h
  exact hquiet (name, target) (by simp [htable])

section Trees

variable {c : Context}

private theorem quiet_identifierTokens (name : String) : Quiet (c.identifierTokens name) := by
  rw [Context.identifierTokens]
  split
  · exact quiet_fieldTokens "this" name
  · cases hconstant : Host.constant? name with
    | none => exact quiet_word name.toList
    | some target => exact quiet_of_lookup quiet_constants hconstant

private theorem quiet_calleeTokens (name : String) : Quiet (c.calleeTokens name) := by
  rw [Context.calleeTokens]
  cases hfunction : Host.function? name with
  | some target => exact quiet_of_lookup quiet_functions hfunction
  | none =>
    dsimp only
    split
    · exact quiet_fieldTokens "this" name
    · exact quiet_word name.toList

private theorem Numeral.quiet {ts : List Token} (h : Numeral ts) : Quiet ts := by
  induction h with
  | digits => exact fun _ _ _ => rfl
  | named => exact quiet_word _
  | negative _ ih => exact ih.mark_cons (by decide)

/-- An expression has no region and declares nothing: it has neither braces nor two words one behind
the other. -/
theorem quiet_tokens {e : Expression} (h : e.WellFormed) : Quiet (e.tokens c) := by
  have hbraces : braceMarks ⊆ opening ++ closing := by decide
  have not_brace {mark : List Char} (hmark : mark ∉ opening ++ closing) : mark ∉ braceMarks :=
    fun hmem => hmark (hbraces hmem)
  have not_brace' {mark : List Char} (hmark : mark ∉ opening ++ closing ++ assignmentMarks) :
      mark ∉ braceMarks :=
    not_brace fun hmem => hmark (List.mem_append_left _ hmem)
  have hclose : [')'] ∉ braceMarks := by decide
  have hcolon : [':'] ∉ braceMarks := by decide
  induction e with
  | number value => exact (numeral_numberTokens value).quiet
  | text value => exact fun _ _ _ => rfl
  | boolean value => exact quiet_word _
  | identifier name => exact quiet_identifierTokens name
  | binary operator left right ihl ihr =>
    obtain ⟨hop, hl, hr⟩ := Expression.wellFormed_binary.mp h
    have hmark := not_brace' (mark_of_binary operator hop).2.2
    have hright := (ihr hr).append_mark hclose quiet_nil
    exact ((ihl hl).append_mark hmark hright).mark_cons (by decide)
  | unary operator leading operand ih =>
    cases leading with
    | true =>
      obtain ⟨hop, hwell⟩ := Expression.wellFormed_leading.mp h
      exact (ih hwell).mark_cons (not_brace' (mark_of_leading operator hop).2.2.1)
    | false =>
      obtain ⟨hop, hwell⟩ := Expression.wellFormed_trailing.mp h
      exact (ih hwell).append_mark (not_brace' (mark_of_trailing operator hop).2.2) quiet_nil
  | assignment operator left right ihl ihr =>
    obtain ⟨hop, hl, hr⟩ := Expression.wellFormed_assignment.mp h
    exact (ihl hl).append_mark (not_brace (mark_of_assignment operator hop).2.2.1) (ihr hr)
  | conditional condition consequent alternate ihc ihl ihr =>
    obtain ⟨hc, hl, hr⟩ := Expression.wellFormed_conditional.mp h
    have halternate := (ihr hr).append_mark hclose quiet_nil
    have hconsequent := (ihl hl).append_mark hcolon halternate
    exact ((ihc hc).append_mark (by decide) hconsequent).mark_cons (by decide)
  | call callee arguments ih =>
    have harguments : Quiet ([Token.mark [',']].intercalate (Expression.tokensAll c arguments)) := by
      rw [Expression.tokensAll_eq]
      apply quiet_intercalate
      intro ts hts
      obtain ⟨e, he, rfl⟩ := List.mem_map.mp hts
      exact ih e he ((Expression.wellFormed_call.mp h).2 e he)
    exact (quiet_calleeTokens callee).append_mark (by decide)
      (harguments.append_mark (by decide) quiet_nil)
  | element array index iha ihi =>
    obtain ⟨ha, hi⟩ := Expression.wellFormed_element.mp h
    exact (iha ha).append_mark (by decide) ((ihi hi).append_mark (by decide) quiet_nil)
  | unsupported kind => exact fun _ _ _ => rfl

private theorem quiet_expression {s : Statement} {e : Expression} (h : s.WellFormed)
    (he : e ∈ s.expressions) : Quiet (e.tokens c) :=
  quiet_tokens ((h s s.self_mem_nodes).1 e he)

private theorem quiet_initialTokens {v : Variable} (h : ∀ e ∈ v.initial, Quiet (e.tokens c)) :
    Quiet (v.initialTokens c) := by
  rw [Variable.initialTokens]
  cases hinitial : v.initial with
  | some e => exact h e hinitial
  | none =>
    simp only [Host.typeDefault]
    cases htype : Host.typeDefaults.lookup (String.ofList (v.type.toList.map Char.toLower)) with
    | none => exact calm_ofList _ (by decide +kernel)
    | some target => exact quiet_of_lookup quiet_typeDefaults htype

private theorem quiet_clauseTokens {clause : Option Expression}
    (h : ∀ e ∈ clause, Quiet (e.tokens c)) :
    Quiet (Statement.clauseTokens c clause) := by
  cases clause with
  | none => exact quiet_nil
  | some e => exact h e rfl

/-- The names that are declared in the region around the statement. -/
def declaredBy (s : Statement) : List (List Char) := s.openNames.map String.toList

/-- Behind a statement its bodies have ended, and the region around it has its names. -/
def Declares (c : Context) (s : Statement) : Prop := ∀ names outer rest,
  regionsFrom (names :: outer) (s.tokens c ++ rest)
    = s.bodies.map declaredBy ++ regionsFrom ((names ++ declaredBy s) :: outer) rest

private theorem regionsFrom_bracedTokens {s : Statement} (h : Declares c s)
    (stack : List (List (List Char)))
    (rest : List Token) : regionsFrom stack (Statement.bracedTokens (s.tokens c) ++ rest)
      = (s.bodies ++ [s]).map declaredBy ++ regionsFrom stack rest := by
  rw [Statement.bracedTokens, List.cons_append, List.append_assoc, regionsFrom_open, h,
    List.singleton_append, regionsFrom_close, List.nil_append, List.map_append, List.append_assoc]
  rfl

private theorem regionsFrom_headTokens {word : String} {ts : List Token}
    (hword : word.toList ≠ letWord)
    (h : Quiet ts) (stack : List (List (List Char))) (rest : List Token) :
    regionsFrom stack (Statement.headTokens word ts ++ rest) = regionsFrom stack rest := by
  have hopen : ['('] ∉ braceMarks := by decide
  have hclose : [')'] ∉ braceMarks := by decide
  simp only [Statement.headTokens, List.cons_append, List.append_assoc, List.nil_append]
  rw [regionsFrom_word _ _ hword, regionsFrom_mark _ _ hopen, h, regionsFrom_mark _ _ hclose]

private theorem declares_semicolon {s : Statement} {ts : List Token}
    (htokens : s.tokens c = ts ++ [.mark [';']])
    (h : Quiet ts) (hbodies : s.bodies = []) (hnames : s.openNames = []) : Declares c s := by
  intro names outer rest
  have hmark : [';'] ∉ braceMarks := by decide
  rw [htokens, List.append_assoc, List.singleton_append, h, regionsFrom_mark _ _ hmark, hbodies,
    declaredBy, hnames]
  simp

private theorem declares_block {body : List Statement} (h : ∀ s ∈ body, Declares c s) :
    Declares c (.block body) := by
  intro names outer rest
  rw [Statement.tokens, Statement.tokensAll_eq, declaredBy, Statement.bodies,
    Statement.bodiesAll_eq, Statement.openNames, Statement.openNamesAll_eq]
  induction body generalizing names with
  | nil => simp
  | cons s body ih =>
    obtain ⟨hs, hbody⟩ := List.forall_mem_cons.mp h
    simp only [List.flatMap_cons, List.map_append, List.append_assoc]
    rw [hs, ih hbody]
    simp only [declaredBy, List.append_assoc]

/-- A statement is read with its bodies and its names, by induction on the statement. -/
theorem declares_of_wellFormed {s : Statement} (h : s.WellFormed) : Declares c s := by
  induction s with
  | block body ih =>
    exact declares_block fun s hs => ih s hs (h.mono (Statement.nodes_subset_block hs))
  | branch condition consequent alternate ihc iha =>
    have hif : "if".toList ≠ letWord := by decide
    have helse : "else".toList ≠ letWord := by decide
    have hcondition : Quiet (condition.tokens c) := quiet_expression h List.mem_cons_self
    have hconsequent := ihc (h.mono (Statement.nodes_subset_consequent condition consequent alternate))
    intro names outer rest
    cases alternate with
    | none =>
      rw [Statement.tokens, List.append_assoc, regionsFrom_headTokens hif hcondition,
        regionsFrom_bracedTokens hconsequent]
      simp [Statement.bodies, Statement.openNames, declaredBy]
    | some alternate =>
      have halternate := iha alternate rfl
        (h.mono (Statement.nodes_subset_alternate condition consequent alternate))
      simp only [Statement.tokens, List.append_assoc, List.cons_append]
      rw [regionsFrom_headTokens hif hcondition, regionsFrom_bracedTokens hconsequent,
        regionsFrom_word _ _ helse, Statement.bodies]
      by_cases hbranch : alternate.isBranch = true
      · rw [if_pos hbranch, if_pos hbranch, halternate]
        simp [declaredBy, Statement.openNames, Statement.openNames_of_isBranch hbranch]
      · rw [if_neg hbranch, if_neg hbranch, regionsFrom_bracedTokens halternate]
        simp [declaredBy, Statement.openNames]
  | forLoop init condition update body ih =>
    have hfor : "for".toList ≠ letWord := by decide
    have hsemicolon : [';'] ∉ braceMarks := by decide
    have hclause {clause : Option Expression}
        (hclause : clause = init ∨ clause = condition ∨ clause = update) :
        Quiet (Statement.clauseTokens c clause) := by
      refine quiet_clauseTokens (fun e he => quiet_expression h ?_)
      rcases hclause with rfl | rfl | rfl <;> simp_all [Statement.expressions]
    have hclauses := (hclause (Or.inl rfl)).append_mark hsemicolon
      ((hclause (Or.inr (Or.inl rfl))).append_mark hsemicolon (hclause (Or.inr (Or.inr rfl))))
    have hbody := ih (h.mono (List.subset_cons_self _ _))
    intro names outer rest
    rw [Statement.tokens, List.append_assoc, regionsFrom_headTokens hfor hclauses,
      regionsFrom_bracedTokens hbody]
    simp [Statement.bodies, Statement.openNames, declaredBy]
  | whileLoop condition body ih =>
    have hwhile : "while".toList ≠ letWord := by decide
    have hcondition : Quiet (condition.tokens c) := quiet_expression h List.mem_cons_self
    have hbody := ih (h.mono (List.subset_cons_self _ _))
    intro names outer rest
    rw [Statement.tokens, List.append_assoc, regionsFrom_headTokens hwhile hcondition,
      regionsFrom_bracedTokens hbody]
    simp [Statement.bodies, Statement.openNames, declaredBy]
  | returns value =>
    have hreturn : "return".toList ≠ letWord := by decide
    cases value with
    | none => exact declares_semicolon rfl (quiet_word _) rfl rfl
    | some value =>
      have hvalue : Quiet (value.tokens c) := quiet_expression h List.mem_cons_self
      have hquiet : Quiet (.word "return".toList :: value.tokens c) := by
        intro stack mark rest
        rw [List.cons_append, regionsFrom_word _ _ hreturn, hvalue]
      exact declares_semicolon rfl hquiet rfl rfl
  | breaks => exact declares_semicolon rfl (quiet_word _) rfl rfl
  | continues => exact declares_semicolon rfl (quiet_word _) rfl rfl
  | evaluate expression =>
    exact declares_semicolon rfl (quiet_expression h List.mem_cons_self) rfl rfl
  | declare declared =>
    have hequals : ['='] ∉ braceMarks := by decide
    have hsemicolon : [';'] ∉ braceMarks := by decide
    have hinitial : Quiet (declared.initialTokens c) :=
      quiet_initialTokens fun e he => quiet_expression h (Option.mem_toList.mpr he)
    intro names outer rest
    have hlet : regionsFrom (names :: outer) ((Statement.declare declared).tokens c ++ rest)
        = regionsFrom ((names ++ [declared.name.toList]) :: outer)
          ([.word declared.name.toList] ++ .mark ['=']
            :: (declared.initialTokens c ++ .mark [';'] :: rest)) := by
      simp only [Statement.tokens, List.cons_append, List.append_assoc, List.nil_append]
      rfl
    rw [hlet, quiet_word, regionsFrom_mark _ _ hequals, hinitial, regionsFrom_mark _ _ hsemicolon]
    rfl
  | unsupported kind =>
    intro names outer rest
    simp only [declaredBy, Statement.openNames, Statement.bodies, List.map_nil, List.append_nil]
    rfl

end Trees

section Methods

variable {c : Context} {f : Function}

private theorem quiet_parameterTokens (f : Function) : Quiet (parameterTokens f) := by
  apply quiet_intercalate
  intro ts hts
  obtain ⟨p, -, rfl⟩ := List.mem_map.mp hts
  exact quiet_word p.name.toList

private theorem regions_methodTokens (h : f.body.WellFormed) :
    regions (methodTokens c f) = (f.body.bodies ++ [f.body]).map declaredBy := by
  have hopen : ['('] ∉ braceMarks := by decide
  have hclose : [')'] ∉ braceMarks := by decide
  have hmethod : methodTokens c f = [.word f.name.toList] ++ .mark ['('] :: (parameterTokens f
      ++ .mark [')'] :: (Statement.bracedTokens (f.body.tokens c) ++ [])) := by
    rw [List.append_nil]
    rfl
  have hend : regionsFrom [] [] = [] := rfl
  rw [regions, hmethod, quiet_word, regionsFrom_mark _ _ hopen, quiet_parameterTokens,
    regionsFrom_mark _ _ hclose, regionsFrom_bracedTokens (declares_of_wellFormed h), hend,
    List.append_nil]

/-- The regions of a method are the bodies in it. -/
theorem regions_render (h : f.WellFormed ∧ Scannable f.body) (c : Context) (depth : Nat) :
    regions (scan (f.render c depth).toList) = (f.body.bodies ++ [f.body]).map declaredBy := by
  have hscan : scan (f.render c depth).toList = methodTokens c f :=
    (fits_method h).linesScan.scan_printAll c.settings depth
  rw [hscan, regions_methodTokens h.1.2.2]

/-- No region of a method declares a name twice exactly if no block of the function does, where what
the blocks inside of a block declare counts as its own. -/
theorem regions_apart_iff (h : f.WellFormed ∧ Scannable f.body) (c : Context) (depth : Nat) :
    (∀ region ∈ regions (scan (f.render c depth).toList), region.Nodup) ↔
      ∀ body, .block body ∈ f.body.nodes → (body.flatMap Statement.openNames).Nodup := by
  have hnames (s : Statement) : (declaredBy s).Nodup ↔ s.openNames.Nodup :=
    List.nodup_map_iff fun a b => String.toList_inj.mp
  rw [← Statement.nodup_openNames_iff, regions_render h, List.forall_mem_map]
  exact forall₂_congr fun s _ => hnames s

end Methods

end JavaScript

namespace Function

/-- The names in the function are identifiers. -/
def Named (f : Function) : Prop :=
  Settings.isIdentifier f.name = true ∧ (∀ p ∈ f.parameters, Settings.isIdentifier p.name = true) ∧
    ∀ n ∈ f.body.nodes, (∀ name ∈ n.declared?, Settings.isIdentifier name = true) ∧
      ∀ e ∈ n.expressions, ∀ name ∈ e.names, Settings.isIdentifier name = true

/-- No block declares a name twice, apart from the blocks inside of it. -/
def BlocksApart (f : Function) : Prop :=
  ∀ body, .block body ∈ f.body.nodes → (body.filterMap Statement.declared?).Nodup

end Function

namespace JavaScript

def plainContext : Context := ⟨⟨[], [], []⟩, Settings.standard⟩

def countVariable : Variable := ⟨"count", "int", none, false⟩

/-- A name is declared in the function, in a branch of it and in the loop behind that. -/
def siblingFunction : Function :=
  ⟨"f", [], .block [.declare countVariable,
    .branch (.boolean true) (.block [.declare countVariable]) none,
    .whileLoop (.boolean true) (.block [.declare countVariable])], none⟩

private theorem scannable_of_no_kinds {f : Function} (h : f.WellFormed) (hkinds : f.body.kinds = [])
    (hexpressions : f.body.expressionKinds = []) : f.WellFormed ∧ Scannable f.body := by
  refine ⟨h, h.2.2, ?_, ?_⟩
  · simp [hexpressions]
  · simp [hkinds]

private theorem scannable_siblingFunction :
    siblingFunction.WellFormed ∧ Scannable siblingFunction.body := by
  have hf : Settings.isIdentifier "f" = true := by decide
  have hcount : Settings.isIdentifier "count" = true := by decide
  refine scannable_of_no_kinds ⟨hf, by simp [siblingFunction], ?_⟩ rfl rfl
  simp [siblingFunction, countVariable, Statement.WellFormed, Statement.nodes, Statement.nodesAll,
    Statement.Proper, Statement.expressions, Expression.WellFormed, Expression.nodes,
    Expression.proper, hcount]

theorem siblingFunction_apart : (siblingFunction.WellFormed ∧ Scannable siblingFunction.body) ∧
    regions (scan (siblingFunction.render plainContext 1).toList)
      = [["count".toList], ["count".toList], ["count".toList]] ∧
    ∀ region ∈ regions (scan (siblingFunction.render plainContext 1).toList), region.Nodup := by
  refine ⟨scannable_siblingFunction, ?_, ?_⟩
  · rw [regions_render scannable_siblingFunction]
    rfl
  · apply (regions_apart_iff scannable_siblingFunction plainContext 1).mpr
    simp [siblingFunction, Statement.nodes, Statement.nodesAll, Statement.openNames]

/-- A block declares the name that the block around it declares. -/
def nestedFunction : Function :=
  ⟨"f", [], .block [.declare countVariable, .block [.declare countVariable]], none⟩

private theorem scannable_nestedFunction :
    nestedFunction.WellFormed ∧ Scannable nestedFunction.body := by
  have hf : Settings.isIdentifier "f" = true := by decide
  have hcount : Settings.isIdentifier "count" = true := by decide
  refine scannable_of_no_kinds ⟨hf, by simp [nestedFunction], ?_⟩ rfl rfl
  simp [nestedFunction, countVariable, Statement.WellFormed, Statement.nodes, Statement.nodesAll,
    Statement.Proper, Statement.expressions, hcount]

/-- An operator that is none of the language declares a name twice. -/
def operatorFunction : Function :=
  ⟨"f", [], .evaluate (.assignment "; let count = 0; let count =" (.identifier "x")
    (.identifier "y")), none⟩

private theorem named_operatorFunction : operatorFunction.Named := by
  have hf : Settings.isIdentifier "f" = true := by decide
  have hx : Settings.isIdentifier "x" = true := by decide
  have hy : Settings.isIdentifier "y" = true := by decide
  simp [Function.Named, operatorFunction, Statement.nodes, Statement.declared?,
    Statement.expressions, Expression.names, Expression.nodes, Expression.name?, forall_and, hf, hx,
    hy]

/-- The blocks inside of a block are taken for parts of it, and what stands for an operator is
copied. -/
theorem not_regions_apart :
    (¬ ∀ (f : Function) (c : Context) (depth : Nat), f.WellFormed ∧ Scannable f.body →
      f.BlocksApart → ∀ region ∈ regions (scan (f.render c depth).toList), region.Nodup) ∧
    ¬ ∀ (f : Function) (c : Context) (depth : Nat), f.Named →
      (∀ body, .block body ∈ f.body.nodes → (body.flatMap Statement.openNames).Nodup) →
        ∀ region ∈ regions (scan (f.render c depth).toList), region.Nodup := by
  have hcounts : ¬ ["count".toList, "count".toList].Nodup := by decide
  constructor
  · intro hall
    have hregions := regions_render scannable_nestedFunction plainContext 1
    have hblocks : nestedFunction.BlocksApart := by
      intro body hbody
      have hbodies : body = [.declare countVariable, .block [.declare countVariable]] ∨
          body = [.declare countVariable] := by
        simpa [nestedFunction, Statement.nodes, Statement.nodesAll] using hbody
      rcases hbodies with rfl | rfl
      · decide
      · decide
    apply hcounts
    apply hall nestedFunction plainContext 1 scannable_nestedFunction hblocks
    rw [hregions]
    exact List.mem_singleton_self _
  · intro hall
    have hregions : regions (scan (operatorFunction.render plainContext 1).toList)
        = [["count".toList, "count".toList]] := by
      decide +kernel
    apply hcounts
    apply hall operatorFunction plainContext 1 named_operatorFunction
    · simp [operatorFunction, Statement.nodes]
    · rw [hregions]
      exact List.mem_singleton_self _

end JavaScript

end Advisor
