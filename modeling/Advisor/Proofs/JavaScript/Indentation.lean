import Advisor.Proofs.JavaScript.Comments
import Advisor.Proofs.Render.OneLine

/-!
# Indentation is nesting

A program closes all brackets that it opens, in the right order, and behind its header each line is
as far in as braces are open where it begins.
-/

namespace Advisor

open JavaScript

/-- The kinds of the script that are written into its program. -/
def Declaration.kinds : Declaration → List String
  | .variable declared => declared.initial.toList.flatMap Expression.kinds
  | .function declared => declared.body.kinds ++ declared.body.expressionKinds
  | .unsupported _ => []

def Script.kinds (script : Script) : List String := script.declarations.flatMap Declaration.kinds

namespace JavaScript

/-- Behind the text these brackets are open, and neither a comment nor a literal. -/
def LeavesOpen (cs : List Char) (stack : List (List Char)) : Prop :=
  .junk ∉ scan cs ∧ nest [] (scan cs) = some stack

/-- A line of the text, behind its first line break, and what stands in front of it. -/
def IsLine (text before line : List Char) : Prop :=
  ∃ after, text = before ++ line ++ '\n' :: after ∧ before.getLast? = some '\n' ∧ '\n' ∉ line

/-- The line has as many levels of blanks as braces are open, or one less if it closes one. -/
def Indented (settings : Settings) (stack : List (List Char)) (line : List Char) : Prop :=
  ∃ level d more, line = List.replicate (settings.indent * level) ' ' ++ d :: more ∧ d ≠ ' '
    ∧ level + (if d = '\x7d' then 1 else 0) = braces stack

section Lines

variable {s : Settings} {depth : Nat} {ls : List Line} {before line after : List Char}

theorem not_mem_print {l : Line} (h : OneLine l.text) : '\n' ∉ (l.print s depth).toList := by
  rw [toList_print]
  simpa [OneLine] using h

private theorem exists_line_of_printed (hls : Line.Unbroken ls)
    (h : printed s depth ls = before ++ line ++ '\n' :: after)
    (hbefore : before = [] ∨ before.getLast? = some '\n') (hline : '\n' ∉ line) :
    ∃ ls₁ l ls₂, ls = ls₁ ++ l :: ls₂ ∧ before = printed s depth ls₁
      ∧ line = (l.print s depth).toList := by
  induction ls generalizing before with
  | nil => simp [printed] at h
  | cons l ls ih =>
    obtain ⟨hl, hls⟩ := List.forall_mem_cons.mp hls
    have hprint : '\n' ∉ (l.print s depth).toList := not_mem_print hl
    rw [printed_cons] at h
    by_cases hmem : '\n' ∈ before
    · obtain ⟨first, more, rfl, hfirst⟩ := List.eq_append_cons_of_mem hmem
      rw [List.append_assoc, List.append_assoc, List.cons_append] at h
      obtain ⟨rfl, hrest⟩ := append_newline_inj hprint hfirst h
      have hmore : more = [] ∨ more.getLast? = some '\n' := by
        cases more with
        | nil => exact Or.inl rfl
        | cons d more =>
          have hlast := hbefore.resolve_left (by simp)
          rw [List.getLast?_append_cons, List.getLast?_cons_cons] at hlast
          exact Or.inr hlast
      rw [← List.append_assoc] at hrest
      obtain ⟨ls₁, m, ls₂, rfl, rfl, hm⟩ := ih hls hrest hmore
      exact ⟨l :: ls₁, m, ls₂, rfl, by simp [printed], hm⟩
    · have hnil : before = [] := by
        rcases hbefore with hnil | hlast
        · exact hnil
        · exact absurd (List.mem_of_getLast? hlast) hmem
      subst hnil
      exact ⟨[], l, ls, rfl, rfl, (append_newline_inj hprint hline h).1.symm⟩

theorem Laid.indented {stack last : List (List Char)} {ts : List Token}
    (h : Laid 0 stack ls ts last) (hls : Line.Unbroken ls)
    (hprinted : printed s 0 ls = before ++ line ++ '\n' :: after)
    (hbefore : before = [] ∨ before.getLast? = some '\n') (hline : '\n' ∉ line)
    (hblank : ∃ d ∈ line, d ≠ ' ') :
    ∃ inner, scan before <+: ts ∧ nest stack (scan before) = some inner
      ∧ Indented s inner line := by
  obtain ⟨ls₁, l, ls₂, rfl, rfl, rfl⟩ := exists_line_of_printed hls hprinted hbefore hline
  obtain ⟨us, inner, hprefix, hscan, hnest, hplaced⟩ := h.exists_placed
  have hus := hscan s 0 []
  rw [List.append_nil, scan_nil, List.append_nil] at hus
  rw [hus]
  refine ⟨inner, hprefix, hnest, l.level, ?_⟩
  have hprint : (l.print s 0).toList = List.replicate (s.indent * l.level) ' ' ++ l.text.toList := by
    rw [toList_print, Nat.zero_add]
  cases htext : l.text.toList with
  | nil =>
    obtain ⟨d, hd, hne⟩ := hblank
    rw [hprint, htext, List.append_nil] at hd
    exact absurd (List.mem_replicate.mp hd).2 hne
  | cons d more =>
    obtain ⟨hne, hlevel⟩ := hplaced d (by simp [htext])
    rw [Nat.zero_add] at hlevel
    exact ⟨d, more, by rw [hprint, htext], hne, hlevel⟩

end Lines

private theorem mem_kinds {script : Script} {d : Declaration} {kind : String}
    (hd : d ∈ script.declarations) (hkind : kind ∈ d.kinds) : kind ∈ script.kinds :=
  List.mem_flatMap.mpr ⟨d, hd, hkind⟩

section Script

variable {script : Script} {settings : Settings}

private theorem variable_kinds (hkinds : ∀ kind ∈ script.kinds, Tame kind) {v : Variable}
    (hv : v ∈ (Partition.ofDeclarations script.declarations).inputs
      ++ (Partition.ofDeclarations script.declarations).globals) :
    ∀ kind ∈ v.initial.toList.flatMap Expression.kinds, Tame kind := fun kind hkind =>
  hkinds kind (mem_kinds
    ((Partition.ofDeclarations_settled script.declarations).variable_declared hv) hkind)

private theorem function_kinds (hkinds : ∀ kind ∈ script.kinds, Tame kind) {f : Function}
    (hf : f ∈ (Partition.ofDeclarations script.declarations).functions) :
    ∀ kind ∈ f.body.kinds ++ f.body.expressionKinds, Tame kind := fun kind hkind =>
  hkinds kind (mem_kinds
    ((Partition.ofDeclarations_settled script.declarations).function_declared hf) hkind)

theorem contained_of_tame (hname : ∀ name ∈ script.name, ¬ ['*', '/'] <:+: name.toList)
    (hkinds : ∀ kind ∈ script.kinds, Tame kind)
    (hclass : Settings.isIdentifier settings.className = true) : Contained script settings := by
  refine ⟨?_, fun kind hkind => ?_, fun kind hkind => ?_⟩
  · rw [Translation.label]
    cases hscript : script.name with
    | some name => exact hname name hscript
    | none =>
      exact not_infix_of_not_mem fun hmem =>
        absurd (continuesIdentifier_of_mem hclass hmem) (by decide)
  · rcases List.mem_append.mp hkind with hkind | hkind
    · obtain ⟨v, hv, hkind⟩ := List.mem_flatMap.mp hkind
      exact (variable_kinds hkinds hv kind hkind).1
    · obtain ⟨f, hf, hkind⟩ := List.mem_flatMap.mp hkind
      exact (function_kinds hkinds hf kind (List.mem_append_right _ hkind)).1
  · obtain ⟨f, hf, hkind⟩ := List.mem_flatMap.mp hkind
    exact (function_kinds hkinds hf kind (List.mem_append_left _ hkind)).2

private theorem oneLine_initial (hscript : script.WellFormed)
    (hkinds : ∀ kind ∈ script.kinds, Tame kind)
    {v : Variable} (hv : v ∈ (Partition.ofDeclarations script.declarations).inputs
      ++ (Partition.ofDeclarations script.declarations).globals) (c : Context) :
    OneLine v.name ∧ OneLine (v.renderInitial c) := by
  obtain ⟨hname, hinitial⟩ := hscript _
    ((Partition.ofDeclarations_settled script.declarations).variable_declared hv)
  refine ⟨oneLine_of_isIdentifier hname, Variable.oneLine_renderInitial fun e he => ?_⟩
  refine (hinitial e he).unbroken fun kind hkind => (variable_kinds hkinds hv kind ?_).oneLine
  exact List.mem_flatMap.mpr ⟨e, Option.mem_toList.mpr he, hkind⟩

theorem unbroken_assignments
    (hvariable : ∀ v ∈ (Partition.ofDeclarations script.declarations).inputs
      ++ (Partition.ofDeclarations script.declarations).globals,
      OneLine v.name ∧ OneLine (v.renderInitial (Scope.contextOf script settings))) :
    Line.Unbroken (Translation.assignments (Scope.ofScript script settings)) := by
  have hinputs : Line.Unbroken
      ((Scope.ofScript script settings).inputs.map Translation.assignInput) := by
    rw [Scope.ofScript, List.map_map]
    refine List.forall_mem_map.mpr fun v hv => ?_
    obtain ⟨hname, hinitial⟩ := hvariable v (List.mem_append_left _ hv)
    simp only [Function.comp_apply, Translation.assignInput, Variable.slot, oneLine_append, hname,
      hinitial]
    decide
  have hglobals : Line.Unbroken
      ((Scope.ofScript script settings).globals.map Translation.assignGlobal) := by
    rw [Scope.ofScript, List.map_map]
    refine List.forall_mem_map.mpr fun v hv => ?_
    obtain ⟨hname, hinitial⟩ := hvariable v (List.mem_append_right _ hv)
    simp only [Function.comp_apply, Translation.assignGlobal, Variable.slot, oneLine_append, hname,
      hinitial]
    decide
  exact List.forall_mem_cons.mpr ⟨by decide, hinputs.append hglobals⟩

private theorem unbroken_classLines (hscript : script.WellFormed)
    (hkinds : ∀ kind ∈ script.kinds, Tame kind)
    (hclass : Settings.isIdentifier settings.className = true) :
    Line.Unbroken (classLines script settings) := by
  have hname : OneLine settings.className := oneLine_of_isIdentifier hclass
  have hopening : OneLine ("class " ++ settings.className ++ " \x7b") := by
    simp only [oneLine_append, hname]
    decide
  have hassignments : Line.Unbroken (Translation.assignments (Scope.ofScript script settings)) :=
    unbroken_assignments fun v hv => oneLine_initial hscript hkinds hv _
  have hconstructor : Line.Unbroken
      (Translation.constructorLines (Scope.ofScript script settings)) :=
    (Line.unbroken_braced (by decide) hassignments Line.unbroken_close).deeper
  have hmethods : Line.Unbroken ((Scope.ofScript script settings).functions.flatMap
      (Translation.methodLines (Scope.ofScript script settings))) := by
    refine Line.Unbroken.flatMap fun f hf => ?_
    obtain ⟨hfunction, hparameters, hbody⟩ := hscript _
      ((Partition.ofDeclarations_settled script.declarations).function_declared hf)
    have hlines := Function.unbroken_lines (c := (Scope.ofScript script settings).context)
      (oneLine_of_isIdentifier hfunction) (fun p hp => oneLine_of_isIdentifier (hparameters p hp))
      (hbody.unbroken fun kind hkind => (function_kinds hkinds hf kind hkind).oneLine)
    exact List.forall_mem_cons.mpr ⟨by decide, hlines.deeper⟩
  have hexport : OneLine ("module.exports = " ++ settings.className ++ ";") := by
    simp only [oneLine_append, hname]
    decide
  have htail : Line.Unbroken [⟨0, "\x7d"⟩, ⟨0, ""⟩,
      ⟨0, "module.exports = " ++ settings.className ++ ";"⟩] :=
    Line.unbroken_close.append
      ((Line.unbroken_singleton (by decide)).append (Line.unbroken_singleton hexport))
  have hclassLines : Line.Unbroken (⟨0, "class " ++ settings.className ++ " \x7b"⟩
      :: Translation.constructorLines (Scope.ofScript script settings)) :=
    List.forall_mem_cons.mpr ⟨hopening, hconstructor⟩
  exact (hclassLines.append hmethods).append htail

/-- The last token of a program is a semicolon, so no comment and no literal is left open. -/
theorem junk_not_mem_programTokens {now : String} {cs : List Char}
    (h : scan cs = programTokens script settings now) :
    .junk ∉ programTokens script settings now := by
  have hends : (programTokens script settings now).getLast? = some (.mark [';']) := by
    simp [programTokens, classTokens, List.getLast?_cons, List.getLast?_append]
  intro hmem
  have hlast := getLast?_of_junk_mem (h ▸ hmem)
  rw [h, hends] at hlast
  exact absurd hlast (by simp)

/-- The program closes what it opens, comments and literals included; behind its header each line
that is not blank is as far in as braces are open where it begins, or one level less if it closes
one. -/
theorem code_indented (seconds : Nat) (hscript : script.WellFormed)
    (hname : ∀ name ∈ script.name, ¬ ['*', '/'] <:+: name.toList)
    (hkinds : ∀ kind ∈ script.kinds, Tame kind) (hsettings : settings.validate = .ok ()) :
    let code := (Translation.ofScript script settings (Timestamp.ofSeconds seconds)).code.toList
    LeavesOpen code [] ∧ code.getLast? = some '\n'
      ∧ ∃ body rest, code = '/' :: '*' :: (body ++ '*' :: '/' :: rest) ∧ ¬ ['*', '/'] <:+: body
        ∧ ∀ before line, IsLine rest before line → (∃ d ∈ line, d ≠ ' ') →
          ∃ stack, LeavesOpen ('/' :: '*' :: (body ++ '*' :: '/' :: before)) stack
            ∧ Indented settings stack line := by
  have hclass := isIdentifier_of_validate hsettings
  have hcontained := contained_of_tame hname hkinds hclass
  have hbody := mt (infix_headerBody (not_mem_ofSeconds seconds)).mp hcontained.label
  have hpartition := hcontained.scannablePartition hscript
  have hlaid := laid_class hclass hpartition
  have hlines : Line.Unbroken (⟨0, ""⟩ :: classLines script settings) :=
    (Line.unbroken_singleton (by decide)).append (unbroken_classLines hscript hkinds hclass)
  have hcode : (Translation.ofScript script settings (Timestamp.ofSeconds seconds)).code.toList
      = '/' :: '*' :: (headerBody script settings (Timestamp.ofSeconds seconds)
        ++ '*' :: '/' :: '\n' :: printed settings 0 (⟨0, ""⟩ :: classLines script settings)) := by
    have hblank : printed settings 0 (⟨0, ""⟩ :: classLines script settings)
        = '\n' :: printed settings 0 (classLines script settings) := by
      simp [printed, Line.print, Settings.indentation]
    rw [toList_code, printed_header, hblank]
    simp
  have hscan : scan (Translation.ofScript script settings (Timestamp.ofSeconds seconds)).code.toList
      = programTokens script settings (Timestamp.ofSeconds seconds) :=
    scan_program hclass hbody hpartition
  have hjunk := junk_not_mem_programTokens hscan
  refine ⟨⟨hscan ▸ hjunk, ?_⟩, ?_, _, _, hcode, hbody, ?_⟩
  · rw [hscan, programTokens]
    exact hlaid.nest_eq
  · have hends : (Translation.ofScript script settings (Timestamp.ofSeconds seconds)).code.toList
        = (Line.printAll settings 0
          (Translation.lines script settings (Timestamp.ofSeconds seconds))).toList ++ ['\n'] :=
      String.toList_append
    rw [hends, List.getLast?_concat]
  · rintro before line ⟨after, hrest, hlast, hline⟩ hblank
    cases before with
    | nil => simp at hlast
    | cons d before =>
      rw [List.cons_append, List.cons_append, List.cons.injEq] at hrest
      obtain ⟨rfl, hrest⟩ := hrest
      have hbefore : before = [] ∨ before.getLast? = some '\n' := by
        cases before with
        | nil => exact Or.inl rfl
        | cons e before =>
          rw [List.getLast?_cons_cons] at hlast
          exact Or.inr hlast
      obtain ⟨inner, hprefix, hnest, hindented⟩ :=
        hlaid.blank.indented hlines hrest hbefore hline hblank
      refine ⟨inner, ?_, hindented⟩
      rw [LeavesOpen, scan_comment _ hbody, scan_blank _ rfl]
      exact ⟨fun hmem => hjunk (((List.prefix_cons_inj _).mpr hprefix).subset hmem), hnest⟩

end Script

/-- A script with brackets in its name, its texts and its operands. -/
def ladderScript : Script :=
  ⟨some "Ladder \x7b EA", [.variable ⟨"title", "string", some (.text "[step"), true⟩,
    .function ⟨"OnTick", [⟨"depth", none⟩], .branch
      (.binary "<" (.identifier "depth") (.call "ArraySize" [.identifier "title"]))
      (.evaluate (.call "Print" [.text "\x7d\n(\"["]))
      (some (.branch (.unsupported "SizeofExpression") (.block [])
        (some (.unsupported "SwitchStatement")))), none⟩]⟩

theorem ladderScript_nested : ladderScript.WellFormed ∧ Settings.standard.validate = .ok () ∧
    LeavesOpen (Translation.ofScript ladderScript Settings.standard
      (Timestamp.ofSeconds 0)).code.toList [] := by
  have htitle : Settings.isIdentifier "title" = true := by decide
  have hdepth : Settings.isIdentifier "depth" = true := by decide
  have hsize : Settings.isIdentifier "ArraySize" = true := by decide
  have hprint : Settings.isIdentifier "Print" = true := by decide
  have htick : Settings.isIdentifier "OnTick" = true := by decide
  have hscript : ladderScript.WellFormed := by
    simp [ladderScript, Script.WellFormed, Declaration.WellFormed, Function.WellFormed,
      Statement.WellFormed, Statement.nodes, Statement.nodesAll, Statement.Proper,
      Statement.expressions, Variable.WellFormed, Expression.WellFormed, Expression.nodes,
      Expression.nodesAll, Expression.proper, Operator.binary, htitle, hdepth, hsize, hprint, htick]
  have hname : ∀ name ∈ ladderScript.name, ¬ ['*', '/'] <:+: name.toList := by
    rintro _ ⟨⟩
    exact not_infix_of_not_mem (by decide)
  have hkinds : ∀ kind ∈ ladderScript.kinds, Tame kind := by
    have hall : ladderScript.kinds = ["SwitchStatement", "SizeofExpression"] := by rfl
    rw [hall]
    exact List.forall_mem_cons.mpr ⟨tame_of_word (by decide),
      List.forall_mem_singleton.mpr (tame_of_word (by decide))⟩
  exact ⟨hscript, rfl, (code_indented 0 hscript hname hkinds rfl).1⟩

end JavaScript

end Advisor
