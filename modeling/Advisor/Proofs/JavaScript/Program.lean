import Advisor.Proofs.JavaScript.Statement
import Advisor.Proofs.Partition.LastWins
import Advisor.Timestamp
import Advisor.Translation

/-!
# Programs as tokens

A program is one comment, the class and the line that exports it. The tokens follow the partition of
the script: first the assignments of the constructor, then the methods.
-/

namespace Advisor.JavaScript

variable {c : Context}

def inputTokens (c : Context) (v : Variable) : List Token :=
  memberTokens v.name ++ .mark ['='] :: (fieldTokens "parameters" v.name ++ .mark ['!', '=', '=']
    :: .word "undefined".toList :: .mark ['?'] :: (fieldTokens "parameters" v.name ++ .mark [':']
    :: (v.initialTokens c ++ [.mark [';']])))

def globalTokens (c : Context) (v : Variable) : List Token :=
  memberTokens v.name ++ .mark ['='] :: (v.initialTokens c ++ [.mark [';']])

def apiTokens : List Token :=
  memberTokens "api" ++ [.mark ['='], .word "api".toList, .mark [';']]

def constructorTokens (c : Context) (p : Partition) : List Token :=
  .word "constructor".toList :: .mark ['('] :: .word "parameters".toList :: .mark ['=']
    :: .mark ['\x7b'] :: .mark ['\x7d'] :: .mark [','] :: .word "api".toList :: .mark [')']
    :: Statement.bracedTokens (apiTokens ++ (p.inputs.flatMap (inputTokens c)
      ++ p.globals.flatMap (globalTokens c)))

def methodTokens (c : Context) (f : Function) : List Token :=
  .word f.name.toList :: .mark ['('] :: ([Token.mark [',']].intercalate
    (f.parameters.map fun p => [.word p.name.toList]) ++ .mark [')']
    :: Statement.bracedTokens (f.body.tokens c))

def classTokens (className : String) (c : Context) (p : Partition) : List Token :=
  .word "class".toList :: .word className.toList
    :: Statement.bracedTokens (constructorTokens c p ++ p.functions.flatMap (methodTokens c))
    ++ fieldTokens "module" "exports" ++ [.mark ['='], .word className.toList, .mark [';']]

/-- The header of a program without the marks of its comment. -/
def headerBody (script : Script) (settings : Settings) (now : String) : List Char :=
  ("*\n * Expert Advisor: " ++ Translation.label script settings
    ++ "\n * Translated from MQL5 by ea-translator.\n"
    ++ (if settings.includeTimestamp then " * Generated at " ++ now ++ "\n" else "") ++ " ").toList

def programTokens (script : Script) (settings : Settings) (now : String) : List Token :=
  .comment (headerBody script settings now)
    :: classTokens settings.className (Scope.contextOf script settings)
      (Partition.ofDeclarations script.declarations)

theorem printed_header (script : Script) (settings : Settings) (now : String) :
    printed settings 0 (Translation.header script settings now)
      = '/' :: '*' :: (headerBody script settings now ++ ['*', '/', '\n', '\n']) := by
  have hline (text : String) : Line.print settings 0 ⟨0, text⟩ = text := by
    simp [Line.print, Settings.indentation]
  rw [Translation.header, headerBody]
  cases settings.includeTimestamp <;> simp [printed, hline]

theorem scan_header {script : Script} {settings : Settings} {now : String} (rest : List Char)
    (h : ¬ ['*', '/'] <:+: headerBody script settings now) :
    scan (printed settings 0 (Translation.header script settings now) ++ rest)
      = .comment (headerBody script settings now) :: scan rest := by
  have hsplit : printed settings 0 (Translation.header script settings now) ++ rest
      = '/' :: '*' :: (headerBody script settings now ++ '*' :: '/' :: '\n' :: '\n' :: rest) := by
    simp [printed_header]
  rw [hsplit, scan_comment _ h, scan_blank _ rfl, scan_blank _ rfl]

private theorem lineScans_input {v : Variable} (hname : Settings.isIdentifier v.name = true)
    (h : Scans (v.renderInitial c) (v.initialTokens c)) :
    LineScans (Translation.assignInput (v.slot c)).text (inputTokens c v) := by
  intro rest
  have hgiven : Scans ("parameters" ++ "." ++ v.name) (fieldTokens "parameters" v.name) :=
    scans_field (by decide) hname
  have hblank (rest : List Char) : Stops (' ' :: rest) := stops_cons (by decide)
  have hequals : steady "= ".toList = true ∧ scan "= ".toList = [.mark ['=']] := by decide
  have htest : steady "!== undefined ? ".toList = true ∧ scan "!== undefined ? ".toList
      = [.mark ['!', '=', '='], .word "undefined".toList, .mark ['?']] := by decide
  have hcolon : steady ": ".toList = true ∧ scan ": ".toList = [.mark [':']] := by decide
  have hsplit : (Translation.assignInput (v.slot c)).text.toList ++ '\n' :: rest
      = ("this." ++ v.name).toList ++ ' ' :: ("= ".toList
        ++ (("parameters" ++ "." ++ v.name).toList ++ ' ' :: ("!== undefined ? ".toList
        ++ (("parameters" ++ "." ++ v.name).toList ++ ' ' :: (": ".toList
        ++ ((v.renderInitial c ++ ";").toList ++ '\n' :: rest)))))) := by
    simp [Translation.assignInput, Translation.parametersArgument, Variable.slot]
  rw [hsplit, scans_member hname _ (hblank _), scan_blank _ rfl, scan_fixed hequals,
    hgiven _ (hblank _), scan_blank _ rfl, scan_fixed htest, hgiven _ (hblank _), scan_blank _ rfl,
    scan_fixed hcolon, h.lineScans]
  simp [inputTokens]

private theorem lineScans_global {v : Variable} (hname : Settings.isIdentifier v.name = true)
    (h : Scans (v.renderInitial c) (v.initialTokens c)) :
    LineScans (Translation.assignGlobal (v.slot c)).text (globalTokens c v) := by
  intro rest
  have hequals : steady "= ".toList = true ∧ scan "= ".toList = [.mark ['=']] := by decide
  have hsplit : (Translation.assignGlobal (v.slot c)).text.toList ++ '\n' :: rest
      = ("this." ++ v.name).toList ++ ' ' :: ("= ".toList
        ++ ((v.renderInitial c ++ ";").toList ++ '\n' :: rest)) := by
    simp [Translation.assignGlobal, Variable.slot]
  rw [hsplit, scans_member hname _ (stops_cons (by decide)), scan_blank _ rfl, scan_fixed hequals,
    h.lineScans]
  simp [globalTokens]

theorem fits_input {v : Variable} (hname : Settings.isIdentifier v.name = true)
    (h : Scans (v.renderInitial c) (v.initialTokens c)) (hneutral : Neutral (v.initialTokens c)) :
    Fits [Translation.assignInput (v.slot c)] (inputTokens c v) := by
  have hgiven := neutral_fieldTokens "parameters" v.name
  have hinitial := @Neutral.mark_cons [':'] _ (by decide) (hneutral.append neutral_semicolon)
  have htest := (@Neutral.mark_cons ['?'] _ (by decide) (hgiven.append hinitial)).word_cons
    "undefined".toList
  have htokens : Neutral (inputTokens c v) := (neutral_memberTokens v.name).append
    ((hgiven.append (htest.mark_cons (by decide))).mark_cons (by decide))
  refine fits_line (lineScans_input hname h) htokens ?_
  simp only [String.append_assoc]
  exact opens_append (by decide)

theorem fits_global {v : Variable} (hname : Settings.isIdentifier v.name = true)
    (h : Scans (v.renderInitial c) (v.initialTokens c)) (hneutral : Neutral (v.initialTokens c)) :
    Fits [Translation.assignGlobal (v.slot c)] (globalTokens c v) := by
  have htokens : Neutral (globalTokens c v) := (neutral_memberTokens v.name).append
    ((hneutral.append neutral_semicolon).mark_cons (by decide))
  refine fits_line (lineScans_global hname h) htokens ?_
  simp only [String.append_assoc]
  exact opens_append (by decide)

def ScannableVariable (v : Variable) : Prop :=
  v.WellFormed ∧ ∀ e ∈ v.initial, ∀ kind ∈ e.kinds, ¬ ['*', '/'] <:+: kind.toList

theorem ScannableVariable.scans {v : Variable} (h : ScannableVariable v) :
    Scans (v.renderInitial c) (v.initialTokens c) :=
  scans_initial (fun e he => scans_render (h.1.2 e he) (h.2 e he))

theorem ScannableVariable.neutral {v : Variable} (h : ScannableVariable v) :
    Neutral (v.initialTokens c) :=
  neutral_initial fun e he => neutral_tokens (h.1.2 e he)

/-- A partition with entries that are scanned as their tokens. -/
structure ScannablePartition (p : Partition) : Prop where
  inputs : ∀ v ∈ p.inputs, ScannableVariable v
  globals : ∀ v ∈ p.globals, ScannableVariable v
  functions : ∀ f ∈ p.functions, f.WellFormed ∧ Scannable f.body

theorem fits_constructor {script : Script} (settings : Settings)
    (h : ScannablePartition (Partition.ofDeclarations script.declarations)) :
    Fits (Line.braced ("constructor(" ++ Translation.parametersArgument ++ " = \x7b\x7d, "
        ++ Host.apiField ++ ") ")
      (Translation.assignments (Scope.ofScript script settings)) Line.close)
      (constructorTokens (Scope.contextOf script settings)
        (Partition.ofDeclarations script.declarations)) := by
  have hopening : LineScans ("constructor(" ++ Translation.parametersArgument ++ " = \x7b\x7d, "
      ++ Host.apiField ++ ") " ++ "\x7b")
      [.word "constructor".toList, .mark ['('], .word "parameters".toList, .mark ['='],
        .mark ['\x7b'], .mark ['\x7d'], .mark [','], .word "api".toList, .mark [')'],
        .mark ['\x7b']] :=
    lineScans_fixed (by decide +kernel)
  have harguments : Neutral [.word "constructor".toList, .mark ['('], .word "parameters".toList,
      .mark ['='], .mark ['\x7b'], .mark ['\x7d'], .mark [','], .word "api".toList, .mark [')']] :=
    neutral_of_nest (by decide)
  have hapi : Fits [Translation.assignApi] apiTokens :=
    fits_line (lineScans_fixed (by decide +kernel)) (neutral_of_nest (by decide)) (by decide)
  have hinputs : Fits ((Scope.ofScript script settings).inputs.map Translation.assignInput)
      ((Partition.ofDeclarations script.declarations).inputs.flatMap
        (inputTokens (Scope.contextOf script settings))) := by
    rw [Scope.ofScript, List.map_map, List.map_eq_flatMap]
    exact Fits.flatMap fun v hv =>
      fits_input (h.inputs v hv).1.1 (h.inputs v hv).scans (h.inputs v hv).neutral
  have hglobals : Fits ((Scope.ofScript script settings).globals.map Translation.assignGlobal)
      ((Partition.ofDeclarations script.declarations).globals.flatMap
        (globalTokens (Scope.contextOf script settings))) := by
    rw [Scope.ofScript, List.map_map, List.map_eq_flatMap]
    exact Fits.flatMap fun v hv =>
      fits_global (h.globals v hv).1.1 (h.globals v hv).scans (h.globals v hv).neutral
  exact Fits.braced hopening (by decide)
    (fun stack => (harguments stack [.mark ['\x7b']]).trans (nest_open (by decide) stack []))
    (hapi.append (hinputs.append hglobals)) shuts_close

def parameterTokens (f : Function) : List Token :=
  [Token.mark [',']].intercalate (f.parameters.map fun p => [.word p.name.toList])

theorem neutral_parameterTokens (f : Function) : Neutral (parameterTokens f) := by
  refine Neutral.intercalate (neutral_mark (by decide)) ?_
  intro ts hts
  obtain ⟨p, -, rfl⟩ := List.mem_map.mp hts
  exact neutral_nil.word_cons p.name.toList

theorem fits_method {f : Function} (h : f.WellFormed ∧ Scannable f.body) :
    Fits (f.lines c) (methodTokens c f) := by
  obtain ⟨⟨hname, hparameters, -⟩, hbody⟩ := h
  have hopening : LineScans
      (f.name ++ "(" ++ Text.join ", " (f.parameters.map (·.name)) ++ ") " ++ "\x7b")
      (.word f.name.toList :: .mark ['('] :: ([Token.mark [',']].intercalate
        (f.parameters.map fun p => [.word p.name.toList]) ++ [.mark [')'], .mark ['\x7b']])) := by
    intro rest
    have hsplit : (f.name ++ "(" ++ Text.join ", " (f.parameters.map (·.name)) ++ ") "
        ++ "\x7b").toList ++ '\n' :: rest
          = f.name.toList ++ '(' :: ((Text.join ", " (f.parameters.map (·.name))).toList
            ++ ')' :: ' ' :: '\x7b' :: '\n' :: rest) := by
      simp
    rw [hsplit, scans_word hname _ (stops_cons (by decide)), scan_bracket _ (by decide),
      scan_join _ (fun p hp => scans_word (hparameters p hp)), scan_bracket _ (by decide),
      scan_blank _ rfl, scan_bracket _ (by decide), scan_blank _ rfl]
    simp
  have hcommas : Neutral ([Token.mark [',']].intercalate
      (f.parameters.map fun p => [.word p.name.toList])) := neutral_parameterTokens f
  have hhead (stack : List (List Char)) : nest stack (.word f.name.toList :: .mark ['(']
      :: ([Token.mark [',']].intercalate (f.parameters.map fun p => [.word p.name.toList])
        ++ [.mark [')'], .mark ['\x7b']])) = some (['\x7b'] :: stack) := by
    rw [nest_word, nest_open (by decide), hcommas, nest_close (by decide), nest_open (by decide),
      nest_nil]
  have hopens : opens (f.name ++ "(" ++ Text.join ", " (f.parameters.map (·.name)) ++ ") ") = true :=
    opens_append (opens_append (opens_append (opens_word hname)))
  have hlines := Fits.braced hopening hopens hhead (fits_lines (c := c) hbody) shuts_close
  simpa [Function.lines, methodTokens, Statement.bracedTokens] using hlines

def classLines (script : Script) (settings : Settings) : List Line :=
  ⟨0, "class " ++ settings.className ++ " \x7b"⟩
      :: Translation.constructorLines (Scope.ofScript script settings)
    ++ (Scope.ofScript script settings).functions.flatMap
      (Translation.methodLines (Scope.ofScript script settings))
    ++ [⟨0, "\x7d"⟩, ⟨0, ""⟩, ⟨0, "module.exports = " ++ settings.className ++ ";"⟩]

theorem laid_class {script : Script} {settings : Settings}
    (hclass : Settings.isIdentifier settings.className = true)
    (h : ScannablePartition (Partition.ofDeclarations script.declarations)) :
    Laid 0 [] (classLines script settings)
      (classTokens settings.className (Scope.contextOf script settings)
        (Partition.ofDeclarations script.declarations)) [] := by
  have hword : steady "class ".toList = true ∧
      scan "class ".toList = [.word "class".toList] := by decide
  have hscan : LineScans ("class " ++ settings.className ++ " \x7b")
      [.word "class".toList, .word settings.className.toList, .mark ['\x7b']] := by
    intro rest
    have hsplit : ("class " ++ settings.className ++ " \x7b").toList ++ '\n' :: rest
        = "class ".toList ++ (settings.className.toList ++ ' ' :: '\x7b' :: '\n' :: rest) := by
      simp
    rw [hsplit, scan_fixed hword, scans_word hclass _ (stops_cons (by decide)), scan_blank _ rfl,
      scan_bracket _ (by decide), scan_blank _ rfl]
    rfl
  have hopening : opens ("class " ++ settings.className ++ " \x7b") = true :=
    opens_append (opens_append (by decide))
  have hconstructor := (fits_constructor settings h [['\x7b']]).deeper
  have hmethods : Laid 0 [['\x7b']] ((Scope.ofScript script settings).functions.flatMap
      (Translation.methodLines (Scope.ofScript script settings)))
      ((Partition.ofDeclarations script.declarations).functions.flatMap
        (methodTokens (Scope.contextOf script settings))) [['\x7b']] :=
    Laid.flatMap fun f hf => (fits_method (h.functions f hf) [['\x7b']]).deeper.blank
  have hfield : steady "module.exports = ".toList = true ∧ scan "module.exports = ".toList
      = fieldTokens "module" "exports" ++ [.mark ['=']] := by decide
  have hexport : Fits [⟨0, "module.exports = " ++ settings.className ++ ";"⟩]
      (fieldTokens "module" "exports" ++ [.mark ['=']]
        ++ [.word settings.className.toList, .mark [';']]) := by
    rw [String.append_assoc]
    exact fits_line ((scans_word hclass).lineScans.prepend (scan_fixed hfield))
      (((neutral_fieldTokens "module" "exports").append (neutral_mark (by decide))).append
        (neutral_semicolon.word_cons _)) (opens_append (by decide))
  have htail := (shuts_close []).append (hexport []).blank
  have hlines := Laid.cons (l := ⟨0, _⟩) hscan (placed_of_opens hopening []) rfl
    (hconstructor.append (hmethods.append htail))
  simpa [classLines, Translation.constructorLines, classTokens, Statement.bracedTokens, Line.close]
    using hlines

theorem toList_code (script : Script) (settings : Settings) (now : String) :
    (Translation.ofScript script settings now).code.toList
      = printed settings 0 (Translation.header script settings now)
        ++ printed settings 0 (classLines script settings) := by
  have hne : Translation.lines script settings now ≠ [] := by
    simp [Translation.lines]
  have hlines : Translation.lines script settings now
      = Translation.header script settings now ++ classLines script settings := by
    simp [Translation.lines, classLines]
  have hcode : (Translation.ofScript script settings now).code.toList
      = printed settings 0 (Translation.lines script settings now) := by
    rw [← toList_printAll settings 0 hne]
    exact String.toList_append
  rw [hcode, hlines, printed, printed, printed, List.flatMap_append]

/-- The text of a program is scanned as its tokens, if its names and kinds are in order. -/
theorem scan_program {script : Script} {settings : Settings} {now : String}
    (hclass : Settings.isIdentifier settings.className = true)
    (hheader : ¬ ['*', '/'] <:+: headerBody script settings now)
    (h : ScannablePartition (Partition.ofDeclarations script.declarations)) :
    scan (Translation.ofScript script settings now).code.toList
      = programTokens script settings now := by
  have hclassLines := (laid_class hclass h).linesScan settings 0 []
  rw [List.append_nil, scan_nil, List.append_nil] at hclassLines
  rw [toList_code, scan_header _ hheader, hclassLines, programTokens]

end Advisor.JavaScript
