import Advisor.Files.Load
import Advisor.Proofs.JavaScript.Indentation
import Advisor.Proofs.JavaScript.Members

/-!
# Clashing members

The fields of an object and the methods of its class share their names. The variables of a script
are kept apart from each other, and so are its functions. But no function is compared with the
variables or with the constructor, and no variable with the field of the trading interface. So
members clash exactly if the script declares them so.
-/

namespace Advisor

namespace Partition

/-- No function is called like the constructor or like a variable. -/
def FunctionsApart (ds : List Declaration) : Prop :=
  ∀ f, .function f ∈ ds → f.name ≠ "constructor" ∧ ∀ v, .variable v ∈ ds → v.name ≠ f.name

/-- No variable is called like the field of the trading interface. -/
def InterfaceApart (ds : List Declaration) : Prop :=
  ∀ v, .variable v ∈ ds → v.name ≠ Host.apiField

end Partition

namespace Scope

/-- The fields that stand for the variables, in the order of their assignments. -/
def variableNames (scope : Scope) : List String := (scope.inputs ++ scope.globals).map (·.name)

def methodNames (scope : Scope) : List String := scope.functions.map (·.name)

section

variable {script : Script} {settings : Settings}

private theorem variableNames_ofScript : (ofScript script settings).variableNames
    = ((Partition.ofDeclarations script.declarations).inputs
      ++ (Partition.ofDeclarations script.declarations).globals).map (·.name) := by
  rw [variableNames, ofScript, ← List.map_append, List.map_map]
  rfl

private theorem notMem_variableNames_iff {n : String} :
    n ∉ (ofScript script settings).variableNames ↔
    ∀ v, .variable v ∈ script.declarations → v.name ≠ n := by
  rw [variableNames_ofScript]
  exact (Partition.ofDeclarations_settled script.declarations).variable_notMem_iff

private theorem notMem_methodNames_iff {n : String} : n ∉ (ofScript script settings).methodNames ↔
    ∀ f, .function f ∈ script.declarations → f.name ≠ n :=
  (Partition.ofDeclarations_settled script.declarations).function_notMem_iff

private theorem nodup_variableNames : (ofScript script settings).variableNames.Nodup := by
  rw [variableNames_ofScript]
  exact (Partition.ofDeclarations_settled script.declarations).variable_nodup

private theorem nodup_methodNames : (ofScript script settings).methodNames.Nodup :=
  (Partition.ofDeclarations_settled script.declarations).functions.nodup_names

private theorem functionsApart_iff : "constructor" ∉ (ofScript script settings).methodNames ∧
      (ofScript script settings).methodNames.Disjoint (ofScript script settings).variableNames ↔
    Partition.FunctionsApart script.declarations := by
  have hdisjoint : (ofScript script settings).methodNames.Disjoint
        (ofScript script settings).variableNames ↔
      ∀ f, .function f ∈ script.declarations →
        ∀ v, .variable v ∈ script.declarations → v.name ≠ f.name := by
    constructor
    · intro h f hf
      apply notMem_variableNames_iff.mp
      apply h
      by_contra hmethod
      exact notMem_methodNames_iff.mp hmethod f hf rfl
    · intro h n hmethod hvariable
      revert hmethod
      apply notMem_methodNames_iff.mpr
      intro f hf hname
      subst hname
      exact notMem_variableNames_iff.mpr (h f hf) hvariable
  rw [notMem_methodNames_iff, hdisjoint, ← forall₂_and]
  rfl

private theorem interfaceApart_iff :
    (Host.apiField :: (ofScript script settings).variableNames).Nodup ↔
    Partition.InterfaceApart script.declarations := by
  rw [List.nodup_cons, notMem_variableNames_iff]
  exact and_iff_left nodup_variableNames

end

end Scope

namespace Translation

open JavaScript Advisor.Partition

section

variable {script : Script} {settings : Settings}

/-- The class that is read back from a program has the methods and the fields of the scope. -/
theorem class_ofScript (hscript : script.WellFormed) (hsettings : settings.validate = .ok ())
    (hcontained : Contained script settings) (seconds : Nat) :
    ∃ found rest, class? (scan (ofScript script settings
        (Timestamp.ofSeconds seconds)).code.toList) = some found ∧
      found.methods.map (·.name)
        = (Scope.ofScript script settings).methodNames.map String.toList ∧
      found.fields = ⟨Host.apiField.toList, [.word Host.apiField.toList]⟩ :: rest ∧
      rest.map (·.field) = (Scope.ofScript script settings).variableNames.map String.toList := by
  have hheader : ¬ ['*', '/'] <:+: headerBody script settings (Timestamp.ofSeconds seconds) :=
    mt (infix_headerBody (not_mem_ofSeconds seconds)).mp hcontained.label
  have hclass := class_code (isIdentifier_of_validate hsettings) hheader
    (hcontained.scannablePartition hscript)
  refine ⟨_, _, hclass, ?_, rfl, ?_⟩
  · simp [classOf, methodOf, Scope.methodNames, Scope.ofScript]
  · simp [Scope.variableNames_ofScript, Function.comp_def]

private theorem toList_notMem_map_iff {n : String} {names : List String} :
    n.toList ∉ names.map String.toList ↔ n ∉ names := by
  simp [String.toList_inj]

private theorem disjoint_map_toList_iff {names names' : List String} :
    (names.map String.toList).Disjoint (names'.map String.toList) ↔ names.Disjoint names' := by
  constructor
  · exact List.Disjoint.of_map
  · apply List.disjoint_map
    intro a b
    exact String.toList_inj.mp

private theorem nodup_map_toList_iff {names : List String} :
    (names.map String.toList).Nodup ↔ names.Nodup := by
  apply List.nodup_map_iff
  intro a b
  exact String.toList_inj.mp

end

/-- The methods of a class have different names. None of them is a second constructor or is hidden
by the field of a variable exactly if no function of the script has such a name. -/
theorem members_apart_iff (script : Script) (settings : Settings) :
    let scope := Scope.ofScript script settings
    scope.methodNames.Nodup ∧
      ("constructor" ∉ scope.methodNames ∧ scope.methodNames.Disjoint scope.variableNames ↔
        FunctionsApart script.declarations) ∧
      (script.WellFormed → settings.validate = .ok () → Contained script settings → ∀ seconds,
        ∃ found, class? (scan (ofScript script settings
            (Timestamp.ofSeconds seconds)).code.toList) = some found ∧
          (found.methods.map (·.name)).Nodup ∧
          ("constructor".toList ∉ found.methods.map (·.name) ∧
              (found.methods.map (·.name)).Disjoint (found.fields.tail.map (·.field)) ↔
            FunctionsApart script.declarations)) := by
  refine ⟨Scope.nodup_methodNames, Scope.functionsApart_iff, ?_⟩
  intro hscript hsettings hcontained seconds
  obtain ⟨found, rest, hclass, hmethods, hfields, hrest⟩ :=
    class_ofScript hscript hsettings hcontained seconds
  refine ⟨found, hclass, ?_, ?_⟩
  · rw [hmethods, nodup_map_toList_iff]
    exact Scope.nodup_methodNames
  · rw [hmethods, hfields, List.tail_cons, hrest, toList_notMem_map_iff, disjoint_map_toList_iff]
    exact Scope.functionsApart_iff

/-- A script with names that do not clash. -/
def rangeScript : Script :=
  ⟨some "Range", [.variable ⟨"width", "int", none, true⟩,
    .variable ⟨"count", "int", some (.identifier "width"), false⟩,
    .function ⟨"OnTick", [], .block [], none⟩]⟩

private theorem wellFormed_rangeScript : rangeScript.WellFormed := by
  have hwidth : Settings.isIdentifier "width" = true := by decide
  have hcount : Settings.isIdentifier "count" = true := by decide
  have htick : Settings.isIdentifier "OnTick" = true := by decide
  simp [rangeScript, Script.WellFormed, Declaration.WellFormed, Function.WellFormed,
    Statement.WellFormed, Statement.nodes, Statement.nodesAll, Statement.Proper,
    Statement.expressions, Variable.WellFormed, Expression.WellFormed, Expression.nodes,
    Expression.proper, hwidth, hcount, htick]

private theorem contained_rangeScript : Contained rangeScript Settings.standard := by
  apply contained_of_tame
  · intro name hname
    obtain rfl := Option.some.inj hname
    exact not_infix_of_not_mem (by decide)
  · intro kind hkind
    have hkinds : rangeScript.kinds = [] := by rfl
    rw [hkinds] at hkind
    exact absurd hkind List.not_mem_nil
  · decide

theorem rangeScript_members : rangeScript.WellFormed ∧ Settings.standard.validate = .ok () ∧
    Contained rangeScript Settings.standard ∧
    ∃ found, class? (scan (ofScript rangeScript Settings.standard
        (Timestamp.ofSeconds 0)).code.toList) = some found ∧
      (found.methods.map (·.name)).Nodup ∧ "constructor".toList ∉ found.methods.map (·.name) ∧
      (found.methods.map (·.name)).Disjoint (found.fields.tail.map (·.field)) := by
  have hapart : FunctionsApart rangeScript.declarations := by
    simp [FunctionsApart, rangeScript]
  obtain ⟨-, -, hread⟩ := members_apart_iff rangeScript Settings.standard
  obtain ⟨found, hclass, hnodup, happart⟩ :=
    hread wellFormed_rangeScript rfl contained_rangeScript 0
  exact ⟨wellFormed_rangeScript, rfl, contained_rangeScript, found, hclass, hnodup,
    happart.mpr hapart⟩

/-- The text of a script with an input and a function of one name. -/
def riskText : String :=
  "\x7b\"body\":[\x7b\"type\":\"VariableDeclaration\",\"name\":\"risk\",\"varType\":\"int\",\"isInput\":true\x7d,
    \x7b\"type\":\"FunctionDeclaration\",\"name\":\"risk\",\"body\":\x7b\"type\":\"Unknown\"\x7d\x7d]\x7d"

def riskScript : Script :=
  ⟨none, [.variable ⟨"risk", "int", none, true⟩, .function ⟨"risk", [], .unsupported "Unknown", none⟩]⟩

private theorem decode_riskText : Script.decode riskText = .ok riskScript := by
  have htokens : Json.Token.ofText riskText = [.beginObject, .text "body", .colon, .beginArray,
      .beginObject, .text "type", .colon, .text "VariableDeclaration", .comma, .text "name", .colon,
      .text "risk", .comma, .text "varType", .colon, .text "int", .comma, .text "isInput", .colon,
      .bool true, .endObject, .comma, .beginObject, .text "type", .colon,
      .text "FunctionDeclaration", .comma, .text "name", .colon, .text "risk", .comma, .text "body",
      .colon, .beginObject, .text "type", .colon, .text "Unknown", .endObject, .endObject, .endArray,
      .endObject] := by
    decide +kernel
  have hdocument : Json.Document.ofText riskText = (.object [(some "body", .array
      [.object [(some "type", .text "VariableDeclaration"), (some "name", .text "risk"),
          (some "varType", .text "int"), (some "isInput", .bool true)] true,
        .object [(some "type", .text "FunctionDeclaration"), (some "name", .text "risk"),
          (some "body", .object [(some "type", .text "Unknown")] true)] true] true)] true, true) := by
    rw [Json.Document.ofText, htokens]
    rfl
  rw [Script.decode, Script.ofText, Wire.ofText, hdocument]
  rfl

/-- A script that is accepted has a method that the field of an input hides. -/
theorem riskScript_members : Script.decode riskText = .ok riskScript ∧
    Settings.standard.validate = .ok () ∧
    ¬ (Scope.ofScript riskScript Settings.standard).methodNames.Disjoint
      (Scope.ofScript riskScript Settings.standard).variableNames := by
  refine ⟨decode_riskText, rfl, ?_⟩
  intro hdisjoint
  have hmethod : "risk" ∈ (Scope.ofScript riskScript Settings.standard).methodNames := by decide
  have hfield : "risk" ∈ (Scope.ofScript riskScript Settings.standard).variableNames := by decide
  exact hdisjoint hmethod hfield

/-- The fields of the variables have different names. The trading interface has a field of its own,
which is assigned once, exactly if no variable has the name of that field. -/
theorem fields_apart_iff (script : Script) (settings : Settings) :
    let scope := Scope.ofScript script settings
    scope.variableNames.Nodup ∧
      ((Host.apiField :: scope.variableNames).Nodup ↔ InterfaceApart script.declarations) ∧
      (script.WellFormed → settings.validate = .ok () → Contained script settings → ∀ seconds,
        ∃ found, class? (scan (ofScript script settings
            (Timestamp.ofSeconds seconds)).code.toList) = some found ∧
          found.fields.head? = some ⟨Host.apiField.toList, [.word Host.apiField.toList]⟩ ∧
          ((found.fields.map (·.field)).Nodup ↔ InterfaceApart script.declarations) ∧
          (found.fields.filter (·.field = Host.apiField.toList)
              = [⟨Host.apiField.toList, [.word Host.apiField.toList]⟩] ↔
            InterfaceApart script.declarations)) := by
  refine ⟨Scope.nodup_variableNames, Scope.interfaceApart_iff, ?_⟩
  intro hscript hsettings hcontained seconds
  obtain ⟨found, rest, hclass, -, hfields, hrest⟩ :=
    class_ofScript hscript hsettings hcontained seconds
  have hnames : found.fields.map (·.field)
      = (Host.apiField :: (Scope.ofScript script settings).variableNames).map String.toList := by
    rw [hfields, List.map_cons, hrest]
    rfl
  refine ⟨found, hclass, ?_, ?_, ?_⟩
  · rw [hfields, List.head?_cons]
  · rw [hnames, nodup_map_toList_iff]
    exact Scope.interfaceApart_iff
  · have hother : rest.filter (·.field = Host.apiField.toList) = [] ↔
        Host.apiField.toList ∉ rest.map (·.field) := by
      simp [List.filter_eq_nil_iff]
    rw [hfields, List.filter_cons_of_pos (by simp), List.cons_inj_right, hother, hrest,
      toList_notMem_map_iff]
    exact Scope.notMem_variableNames_iff

theorem rangeScript_fields : rangeScript.WellFormed ∧ Settings.standard.validate = .ok () ∧
    Contained rangeScript Settings.standard ∧
    ∃ found, class? (scan (ofScript rangeScript Settings.standard
        (Timestamp.ofSeconds 0)).code.toList) = some found ∧
      (found.fields.map (·.field)).Nodup ∧
      found.fields.filter (·.field = Host.apiField.toList)
        = [⟨Host.apiField.toList, [.word Host.apiField.toList]⟩] := by
  have hapart : InterfaceApart rangeScript.declarations := by
    simp [InterfaceApart, rangeScript, Host.apiField]
  obtain ⟨-, -, hread⟩ := fields_apart_iff rangeScript Settings.standard
  obtain ⟨found, hclass, -, hnodup, honce⟩ :=
    hread wellFormed_rangeScript rfl contained_rangeScript 0
  exact ⟨wellFormed_rangeScript, rfl, contained_rangeScript, found, hclass, hnodup.mpr hapart,
    honce.mpr hapart⟩

def apiText : String :=
  "\x7b\"body\":[\x7b\"type\":\"VariableDeclaration\",\"name\":\"api\",\"varType\":\"int\"\x7d]\x7d"

def apiScript : Script := ⟨none, [.variable ⟨"api", "int", none, false⟩]⟩

private theorem decode_apiText : Script.decode apiText = .ok apiScript := by
  have htokens : Json.Token.ofText apiText = [.beginObject, .text "body", .colon, .beginArray,
      .beginObject, .text "type", .colon, .text "VariableDeclaration", .comma, .text "name", .colon,
      .text "api", .comma, .text "varType", .colon, .text "int", .endObject, .endArray,
      .endObject] := by
    decide +kernel
  have hdocument : Json.Document.ofText apiText = (.object [(some "body", .array
      [.object [(some "type", .text "VariableDeclaration"), (some "name", .text "api"),
        (some "varType", .text "int")] true] true)] true, true) := by
    rw [Json.Document.ofText, htokens]
    rfl
  rw [Script.decode, Script.ofText, Wire.ofText, hdocument]
  rfl

/-- A script that is accepted assigns zero to the field of the trading interface. -/
theorem apiScript_fields : Script.decode apiText = .ok apiScript ∧
    Settings.standard.validate = .ok () ∧
    ¬ (Host.apiField :: (Scope.ofScript apiScript Settings.standard).variableNames).Nodup := by
  refine ⟨decode_apiText, rfl, ?_⟩
  decide

end Translation

end Advisor
