import Advisor.Proofs.Wire.Table

/-!
# What a tree asks of its node

A tree asks something of each field of the nodes that it is read from, one by one, and it asks the
same where what a field says is changed to what is alike: null to nothing, the usual value to none,
a node to another that is read as the same trees.
-/

namespace Advisor

namespace Wire

/-- What the object says under the names of the field. If it says it twice, it says nothing. -/
def Field.Says (field : Field) (o : Object) : Option Json.Value → Prop
  | some v => Gives o field.names v
  | none => Lacks o field.names

/-- Values that may stand in each other's place as what a field holds. -/
inductive Content.Alike : Content → Json.Value → Json.Value → Prop
  | node {kind o o'} (h : ∀ t, kind.Written t (.object o) ↔ kind.Written t (.object o')) :
      Alike (.node kind) (.object o) (.object o')
  | nodes {kind before after v v'} (h : ∀ t, kind.Written t v ↔ kind.Written t v') :
      Alike (.nodes kind) (.array (before ++ v :: after)) (.array (before ++ v' :: after))
  | parameters {before after p q} (h : ∀ x : Parameter, x.Written p ↔ x.Written q) :
      Alike .parameters (.array (before ++ p :: after)) (.array (before ++ q :: after))

/-- What a field says in two writings that are read alike. -/
inductive Field.Alike (field : Field) : Option Json.Value → Option Json.Value → Prop
  | refl {given} : Alike field given given
  | null (h : field.absence = .nothing) : Alike field (some .null) none
  | usual {v} (h : field.absence = .usual v) : Alike field (some v) none
  | content {v v'} (h : field.content.Alike v v') : Alike field (some v) (some v')

section Says

variable {field : Field} {o o' : Object} {given other : Option Json.Value}

theorem Field.Says.unique (h : field.Says o given) (h' : field.Says o other) : given = other := by
  have hmixed {v : Json.Value} (hgives : Gives o field.names v) (hlacks : Lacks o field.names) :
      False := by
    obtain ⟨name, hname, hv, -⟩ := hgives
    rw [hlacks name hname] at hv
    exact absurd hv (by simp)
  cases given with
  | none =>
    cases other with
    | none => rfl
    | some w => exact (hmixed h' h).elim
  | some v =>
    cases other with
    | none => exact (hmixed h h').elim
    | some w =>
      obtain ⟨name, hname, hv, -⟩ := h
      rw [eq_of_gives h' hname hv]

theorem Field.Says.alone {name : String} {v : Json.Value} (h : field.Says o given)
    (hname : name ∈ field.names) (hv : Json.latest name o = some v) :
    ∀ other ∈ field.names, other ≠ name → Json.latest other o = none := by
  cases given with
  | none =>
    rw [h name hname] at hv
    exact absurd hv (by simp)
  | some w =>
    obtain ⟨given, hgiven, hw, hothers⟩ := h
    have heq : name = given := by
      by_contra hne
      rw [hothers name hname hne] at hv
      exact absurd hv (by simp)
    exact heq ▸ hothers

theorem Field.says_congr (h : ∀ name ∈ field.names, Json.latest name o = Json.latest name o') :
    field.Says o given ↔ field.Says o' given := by
  cases given with
  | none => exact forall₂_congr fun name hname => by rw [h name hname]
  | some v =>
    refine exists_congr fun name => and_congr_right fun hname => ?_
    rw [h name hname]
    exact and_congr_right fun _ => forall₂_congr fun other hother => by rw [h other hother]

end Says

/-- What a tree asks of a field of its node; it asks the same of what is alike. -/
structure Demand where
  field : Field
  asks : Option Json.Value → Prop
  asks_congr : ∀ {given given'}, field.Alike given given' → (asks given ↔ asks given')

namespace Demand

def Met (p : Demand) (o : Object) : Prop := ∃ given, p.field.Says o given ∧ p.asks given

theorem met_iff {p : Demand} {o : Object} {given : Option Json.Value} (h : p.field.Says o given) :
    p.Met o ↔ p.asks given := by
  constructor
  · rintro ⟨other, hother, hasks⟩
    rwa [h.unique hother]
  · exact fun hasks => ⟨given, h, hasks⟩

section

variable (names : List String) (content : Content) {o : Object}

section

variable (shape : Json.Value → Prop)
  (hshape : ∀ v v', content.Alike v v' → (shape v ↔ shape v'))

/-- The field has to be there, and to have the shape. -/
def required : Demand where
  field := ⟨names, content, .flaw⟩
  asks given := ∃ v ∈ given, shape v
  asks_congr := by
    rintro _ _ (_ | ⟨⟨⟩⟩ | ⟨⟨⟩⟩ | h)
    · exact Iff.rfl
    · simpa using hshape _ _ h

@[simp] theorem met_required :
    (required names content shape hshape).Met o ↔ Required o names shape := by
  simp [Met, required, Field.Says, Required]

variable (usual : Json.Value) (isUsual : Prop) (husual : shape usual ↔ isUsual)

/-- The field has the shape, and the usual value if it is not there. -/
def defaulted : Demand where
  field := ⟨names, content, .usual usual⟩
  asks given := (∃ v ∈ given, shape v) ∨ given = none ∧ isUsual
  asks_congr := by
    rintro _ _ (_ | ⟨⟨⟩⟩ | ⟨⟨⟩⟩ | h)
    · exact Iff.rfl
    · simpa using husual
    · simpa using hshape _ _ h

@[simp] theorem met_defaulted : (defaulted names content shape hshape usual isUsual husual).Met o ↔
    Defaulted o names shape isUsual := by
  rw [Met, Option.exists, or_comm]
  simp [defaulted, Field.Says, Defaulted, Required]

end

variable {α : Type} (shape : α → Json.Value → Prop)
  (hshape : ∀ v v', content.Alike v v' → ∀ a, (shape a v ↔ shape a v'))
  (hnull : ∀ a, ¬ shape a .null) (part : Option α)

include hnull

/-- The field has the shape of what is there, or says that there is nothing. -/
def optional : Demand where
  field := ⟨names, content, .nothing⟩
  asks given := match part with
    | some a => ∃ v ∈ given, shape a v
    | none => ∀ v ∈ given, v = .null
  asks_congr := by
    rintro _ _ (_ | ⟨⟨⟩⟩ | ⟨⟨⟩⟩ | h)
    · exact Iff.rfl
    · cases part with
      | none => simp
      | some a => simpa using hnull a
    · cases part with
      | none => cases h <;> simp
      | some a => simpa using hshape _ _ h a

@[simp] theorem met_optional :
    (optional names content shape hshape hnull part).Met o ↔ Optional o names shape part := by
  cases part with
  | none => simp [Met, optional, Option.exists, Field.Says, Optional]
  | some a => simp [Met, optional, Field.Says, Optional, Required]

end

private theorem forall₂_middle {β : Type} {R : Json.Value → β → Prop}
    {before after : List Json.Value} {v v' : Json.Value} {bs : List β} (h : ∀ b, R v b ↔ R v' b) :
    List.Forall₂ R (before ++ v :: after) bs ↔ List.Forall₂ R (before ++ v' :: after) bs := by
  induction before generalizing bs with
  | nil => simp only [List.nil_append, List.forall₂_cons_left_iff, h]
  | cons w before ih => simp only [List.cons_append, List.forall₂_cons_left_iff, ih]

variable {o : Object}

private theorem not_alike {content : Content} (h : content ∈ [.text, .flag, .double])
    {shape : Json.Value → Prop} (v v' : Json.Value) (hv : content.Alike v v') :
    shape v ↔ shape v' := by
  cases hv <;> simp at h

private theorem node_congr {kind : Kind} (v v' : Json.Value) (h : (Content.node kind).Alike v v')
    (t : kind.Tree) : kind.Written t v ↔ kind.Written t v' := by
  cases h with
  | node h => exact h t

private theorem array_congr {β : Type} {R : Json.Value → β → Prop} {before after : List Json.Value}
    {v v' : Json.Value} {bs : List β} (h : ∀ b, R v b ↔ R v' b) :
    (∃ items, Json.Value.array (before ++ v :: after) = .array items ∧ List.Forall₂ R items bs) ↔
      ∃ items, Json.Value.array (before ++ v' :: after) = .array items
        ∧ List.Forall₂ R items bs := by
  simpa using forall₂_middle h

private theorem not_written_null {kind : Kind} (t : kind.Tree) : ¬ kind.Written t .null := by
  intro h
  obtain ⟨tag, o, ho, -⟩ := (Kind.accepts_iff.mpr ⟨t, Kind.ofValue_iff.mpr h⟩).isNode
  cases ho

section Nodes

variable (names : List String)

section

variable (content : Content) (shape : Json.Value → Prop)
  (hsingle : content ∈ [.text, .flag, .double])

/-- A required value that is neither a node nor a list. -/
def single : Demand := required names content shape (not_alike hsingle)

@[simp] theorem met_single :
    (single names content shape hsingle).Met o ↔ Required o names shape :=
  met_required names content shape _

variable (usual : Json.Value) (isUsual : Prop) (husual : shape usual ↔ isUsual)

/-- A value that is neither a node nor a list, and the usual one if it is not there. -/
def defaultedSingle : Demand :=
  defaulted names content shape (not_alike hsingle) usual isUsual husual

@[simp] theorem met_defaultedSingle :
    (defaultedSingle names content shape hsingle usual isUsual husual).Met o ↔
      Defaulted o names shape isUsual :=
  met_defaulted names content shape _ usual isUsual husual

end

variable (kind : Kind)

/-- A required node. -/
def node (t : kind.Tree) : Demand :=
  required names (.node kind) (kind.Written t) fun v v' h => node_congr v v' h t

@[simp] theorem met_node {t : kind.Tree} :
    (node names kind t).Met o ↔ Required o names (kind.Written t) :=
  met_required names (.node kind) (kind.Written t) _

/-- A node, or nothing. -/
def node? (part : Option kind.Tree) : Demand :=
  optional names (.node kind) kind.Written node_congr not_written_null part

@[simp] theorem met_node? {part : Option kind.Tree} :
    (node? names kind part).Met o ↔ Optional o names kind.Written part :=
  met_optional names (.node kind) kind.Written _ _ part

private theorem nodes_congr {ts : List kind.Tree} (v v' : Json.Value)
    (h : (Content.nodes kind).Alike v v') :
    (∃ items, v = .array items ∧ List.Forall₂ (fun item t => kind.Written t item) items ts) ↔
      ∃ items, v' = .array items ∧ List.Forall₂ (fun item t => kind.Written t item) items ts := by
  cases h with
  | nodes h => exact array_congr h

end Nodes

end Demand

/-- The values in question are nodes with one tag. Of a known one no more is asked than of its
fields, one by one, and of an unknown one nothing. -/
inductive Kind.Asks (kind : Kind) (written : Json.Value → Prop) : Prop
  | demands {tag : String} (demands : List Demand)
      (hfields : kind.fields? tag = some (demands.map Demand.field))
      (h : ∀ v, written v ↔ IsNode tag (fun o => ∀ p ∈ demands, p.Met o) v)
  | nothing {tag : String} {unknown : Prop} (h : ∀ v, written v ↔ IsNode tag (fun _ => unknown) v)

private theorem asks_demands {kind : Kind} {tag : String} {fields : Object → Prop}
    (demands : List Demand) (hfields : kind.fields? tag = some (demands.map Demand.field))
    (h : ∀ o, fields o ↔ ∀ p ∈ demands, p.Met o) : kind.Asks (IsNode tag fields) :=
  .demands demands hfields fun _ => isNode_congr h

private theorem isText_text {s t : String} : IsText s (.text t) ↔ s = t := by
  simp [IsText, eq_comm]

private theorem isFlag_bool {b c : Bool} : IsFlag b (.bool c) ↔ b = c := by
  simp [IsFlag, eq_comm]

open Demand

private theorem asks_expression (e : Expression) : Kind.expression.Asks e.Written := by
  cases e with
  | number x =>
    rw [Expression.Written]
    exact asks_demands [single ["value"] .double (IsDouble x) (by simp)] rfl (by simp)
  | text s =>
    rw [Expression.Written]
    exact asks_demands [single ["value"] .text (IsText s) (by simp)] rfl (by simp)
  | boolean b =>
    rw [Expression.Written]
    exact asks_demands [single ["value"] .flag (IsFlag b) (by simp)] rfl (by simp)
  | identifier name =>
    rw [Expression.Written]
    exact asks_demands [single ["name"] .text (IsText name) (by simp)] rfl (by simp)
  | binary operator left right =>
    rw [Expression.Written]
    exact asks_demands [single ["operator"] .text (IsText operator) (by simp),
      node ["left"] .expression left, node ["right"] .expression right] rfl
      (by simp [Kind.Written])
  | unary operator leading operand =>
    rw [Expression.Written]
    exact asks_demands [single ["operator"] .text (IsText operator) (by simp),
      node ["operand", "argument"] .expression operand,
      defaultedSingle ["prefix"] .flag (IsFlag leading) (by simp) (.bool true) (leading = true)
        isFlag_bool] rfl (by simp [Kind.Written])
  | assignment operator left right =>
    rw [Expression.Written]
    exact asks_demands [defaultedSingle ["operator"] .text (IsText operator) (by simp) (.text "=")
        (operator = "=") isText_text,
      node ["left"] .expression left, node ["right"] .expression right] rfl (by simp [Kind.Written])
  | conditional condition consequent alternate =>
    rw [Expression.Written]
    exact asks_demands [node ["condition", "test"] .expression condition,
      node ["consequent"] .expression consequent, node ["alternate"] .expression alternate] rfl
      (by simp [Kind.Written])
  | call callee arguments =>
    rw [Expression.Written]
    exact asks_demands [single ["callee"] .text (IsText callee) (by simp),
      defaulted ["arguments"] (.nodes .expression)
        (fun v => ∃ items, v = .array items ∧ Expression.AllWritten arguments items)
        (by simp only [Expression.allWritten_iff]; exact nodes_congr _) (.array []) (arguments = [])
        (by simp [Expression.allWritten_iff])] rfl (by simp)
  | element array index =>
    rw [Expression.Written]
    exact asks_demands [node ["array"] .expression array, node ["index"] .expression index] rfl
      (by simp [Kind.Written])
  | unsupported kind =>
    rw [Expression.Written]
    exact .nothing fun _ => Iff.rfl

/-- What a variable asks of its fields. -/
def variableDemands (x : Variable) : List Demand :=
  [single ["name"] .text (IsText x.name) (by simp),
    single ["varType"] .text (IsText x.type) (by simp),
    node? ["defaultValue"] .expression x.initial,
    defaultedSingle ["isInput"] .flag (IsFlag x.isInput) (by simp) (.bool false) (x.isInput = false)
      isFlag_bool]

private theorem asks_variable {kind : Kind} {tag : String}
    (h : kind.fields? tag = some variableFields) (x : Variable) : kind.Asks (IsNode tag x.Fields) :=
  asks_demands (variableDemands x) h (by simp [variableDemands, Variable.Fields, Kind.Written])

private theorem asks_statement (s : Statement) : Kind.statement.Asks s.Written := by
  cases s with
  | block body =>
    rw [Statement.Written]
    exact asks_demands [Demand.required ["body"] (.nodes .statement)
      (fun v => ∃ items, v = .array items ∧ Statement.AllWritten body items)
      (by simp only [Statement.allWritten_iff]; exact nodes_congr _)] rfl (by simp)
  | branch condition consequent alternate =>
    rw [Statement.written_branch]
    exact asks_demands [node ["condition"] .expression condition,
      node ["consequent", "thenBranch"] .statement consequent,
      node? ["alternate", "elseBranch"] .statement alternate] rfl (by simp [Kind.Written])
  | forLoop init condition update body =>
    rw [Statement.Written]
    exact asks_demands [node? ["init"] .expression init, node? ["condition"] .expression condition,
      node? ["update", "increment"] .expression update, node ["body"] .statement body] rfl
      (by simp [Kind.Written])
  | whileLoop condition body =>
    rw [Statement.Written]
    exact asks_demands [node ["condition"] .expression condition, node ["body"] .statement body] rfl
      (by simp [Kind.Written])
  | returns value =>
    rw [Statement.Written]
    exact asks_demands [node? ["value", "argument"] .expression value] rfl (by simp [Kind.Written])
  | breaks | continues =>
    rw [Statement.Written]
    exact asks_demands [] rfl (by simp)
  | evaluate expression =>
    rw [Statement.Written]
    exact asks_demands [node ["expression"] .expression expression] rfl (by simp [Kind.Written])
  | declare declared =>
    rw [Statement.Written]
    exact asks_variable rfl declared
  | unsupported kind =>
    rw [Statement.Written]
    exact .nothing fun _ => Iff.rfl

private theorem parameters_congr {ps : List Parameter} (v v' : Json.Value)
    (h : Content.parameters.Alike v v') :
    (∃ items, v = .array items ∧ List.Forall₂ (fun item p => Parameter.Written p item) items ps) ↔
      ∃ items, v' = .array items
        ∧ List.Forall₂ (fun item p => Parameter.Written p item) items ps := by
  cases h with
  | parameters h => exact array_congr h

/-- What a function asks of its fields. -/
def functionDemands (f : Function) : List Demand :=
  [single ["name"] .text (IsText f.name) (by simp),
    defaulted ["parameters"] .parameters
      (fun v => ∃ items, v = .array items
        ∧ List.Forall₂ (fun item p => Parameter.Written p item) items f.parameters)
      parameters_congr (.array []) (f.parameters = []) (by simp),
    node ["body"] .statement f.body,
    optional ["returnType"] .text IsText (fun _ _ h _ => not_alike (by simp) _ _ h)
      (by simp [IsText]) f.returnType]

private theorem asks_declaration (d : Declaration) : Kind.declaration.Asks d.Written := by
  rcases d with declared | declared | kind
  · exact asks_variable rfl declared
  · exact asks_demands (functionDemands declared) rfl (by
      simp [functionDemands, Function.Fields, Kind.Written])
  · exact .nothing fun _ => Iff.rfl

theorem Kind.asks {kind : Kind} (t : kind.Tree) : kind.Asks (kind.Written t) := by
  cases kind with
  | expression => exact asks_expression t
  | statement => exact asks_statement t
  | declaration => exact asks_declaration t

end Wire

end Advisor
