import Advisor.Proofs.Wire.Table

/-!
# The first flaw of a node

The fields of a node are read in the order of their names. If none is given under two names, the
first of them that cannot be read decides why the node cannot, and no later one and no field that is
missing matters. That is shown here for each tag, one field at a time.
-/

namespace Advisor

namespace Wire

section Except

variable {ε α β : Type}

/-- Whether a reading succeeds, and its flaw if it does not. -/
def outcome (x : Except ε α) : Except ε Unit := (fun _ => ()) <$> x

theorem outcome_eq_error {x : Except ε α} {e : ε} : outcome x = .error e ↔ x = .error e := by
  cases x <;> simp [outcome, Functor.map, Except.map]

private theorem outcome_eq_ok {x : Except ε α} : outcome x = .ok () ↔ ∃ a, x = .ok a := by
  cases x <;> simp [outcome, Functor.map, Except.map]

theorem bind_error {x : Except ε α} {e : ε} (h : x = .error e) (f : α → Except ε β) :
    x >>= f = .error e := by
  rw [h]
  rfl

end Except

/-- Reads what a field holds. -/
def Content.read : Content → Json.Value → Except Flaw Unit
  | text, v => outcome (Wire.text v)
  | flag, v => outcome (Wire.flag v)
  | double, v => outcome (Wire.double v)
  | node kind, v => outcome (kind.ofValue v)
  | nodes kind, v => outcome (listOf kind.ofValue v)
  | parameters, v => outcome (listOf Parameter.read v)

/-- Reads what the object gives for the field; null is nothing where nothing is allowed. -/
def Field.read (field : Field) (v : Json.Value) : Except Flaw Unit :=
  match field.absence with
  | .nothing => outcome (nullable field.content.read v)
  | _ => field.content.read v

/-- No field is given under two of its names. -/
def GivenOnce (fields : List Field) (o : Object) : Prop :=
  ∀ field ∈ fields, ∀ name ∈ field.names, ∀ other ∈ field.names,
    Json.latest name o ≠ none → Json.latest other o ≠ none → name = other

private theorem GivenOnce.eq_none {fields : List Field} {o : Object} {field : Field} {β : Type}
    {earlier : Option β} (h : GivenOnce fields o) (hfield : field ∈ fields) {name other : String}
    (hname : name ∈ field.names) (hother : other ∈ field.names) (hne : name ≠ other)
    (hearlier : earlier ≠ none → Json.latest name o ≠ none) (hgiven : Json.latest other o ≠ none) :
    earlier = none := by
  by_contra hsome
  exact hne (h field hfield name hname other hother (hearlier hsome) hgiven)

/-- Of the fields, visited in the order of the list, the first one that cannot be read has the
flaw. -/
inductive Meets (o : Object) (flaw : Flaw) : List (String × Field) → Prop
  | here {name field visits v} (hv : Json.latest name o = some v)
      (hflaw : field.read v = .error flaw) : Meets o flaw ((name, field) :: visits)
  | later {name field visits} (hread : ∀ v, Json.latest name o = some v → field.read v = .ok ())
      (h : Meets o flaw visits) : Meets o flaw ((name, field) :: visits)

section Visit

variable {α β γ : Type} {node : Members α → Except Flaw α} {o : Object} {flaw : Flaw}
  {name other : String} {field : Field} {visits : List (String × Field)}
  {read : Reading α → Except Flaw β}
  (hread : ∀ v, outcome (read (Reading.ofValue node v)) = field.read v)
  (h : Meets o flaw ((name, field) :: visits))

include hread h

/-- A field is visited, and those that follow if it can be read. -/
theorem Meets.field? {next : Option β → Except Flaw γ}
    (hnext : ∀ part, (part ≠ none → Json.latest name o ≠ none) → Meets o flaw visits →
      next part = .error flaw) :
    ((Reading.ofMembers node o).field? name read >>= next) = .error flaw := by
  rw [Members.field?, latest_ofMembers]
  cases h with
  | here hv hflaw =>
    rw [hv]
    have hfails := outcome_eq_error.mp ((hread _).trans hflaw)
    exact bind_error (by simp [hfails, Functor.map, Except.map]) next
  | later hreads hlater =>
    cases hv : Json.latest name o with
    | none => exact hnext none (by simp) hlater
    | some v =>
      obtain ⟨b, hb⟩ := outcome_eq_ok.mp ((hread v).trans (hreads v hv))
      simp only [Option.map_some, hb]
      exact hnext (some b) (by simp [hv]) hlater

theorem Meets.respelled? {spelled : String} {earlier : Option β}
    {next : Option β → Except Flaw γ} (hearlier : Json.latest name o ≠ none → earlier = none)
    (hnext : ∀ part, Meets o flaw visits → next part = .error flaw) :
    ((Reading.ofMembers node o).respelled? name spelled earlier read >>= next) = .error flaw := by
  rw [Members.respelled?, latest_ofMembers]
  cases h with
  | here hv hflaw =>
    rw [hv, hearlier (by simp [hv])]
    have hfails := outcome_eq_error.mp ((hread _).trans hflaw)
    exact bind_error (by simp [once, hfails, Functor.map, Except.map]) next
  | later hreads hlater =>
    cases hv : Json.latest name o with
    | none => exact hnext earlier hlater
    | some v =>
      obtain ⟨b, hb⟩ := outcome_eq_ok.mp ((hread v).trans (hreads v hv))
      simp only [Option.map_some, hb, hearlier (by simp [hv])]
      exact hnext (some b) hlater

end Visit

section Put

variable {δ α β : Type} {record : Record δ α} {o : Object} {flaw : Flaw} {name : String}
  {field : Field} {visits : List (String × Field)} {names : List String} {d : δ}
  (read : Json.Value → Except Flaw β) (draft : Option β → δ)

theorem Meets.put (h : Meets o flaw ((name, field) :: visits))
    (hread : ∀ v, outcome (read v) = field.read v)
    (hput : ∀ v, record.put name v d = once name none (read v) >>= fun part => pure (draft part))
    (hlack : draft none = d)
    (hnext : ∀ part, Meets o flaw visits → record.putFields o names (draft part) = .error flaw) :
    record.putFields o (name :: names) d = .error flaw := by
  rw [Record.putFields]
  cases h with
  | here hv hflaw =>
    rw [hv]
    dsimp only
    rw [hput]
    have hfails := outcome_eq_error.mp ((hread _).trans hflaw)
    exact bind_error (by simp [once, hfails, Functor.map, Except.map, bind, Except.bind]) _
  | later hreads hlater =>
    cases hv : Json.latest name o with
    | none =>
      rw [← hlack]
      exact hnext none hlater
    | some v =>
      obtain ⟨b, hb⟩ := outcome_eq_ok.mp ((hread v).trans (hreads v hv))
      simp only [hput, hb, once]
      exact hnext (some b) hlater

end Put

/-- The order in which an object that has been read goes through its names: that of their
characters, which is the one of their bytes. -/
def precedes (name other : String) : Bool :=
  name.toList.lex other.toList fun c d => decide (c.toNat < d.toNat)

@[simp] theorem precedes_self (name : String) : precedes name name = false := by
  rw [precedes]
  induction name.toList with
  | nil => rfl
  | cons c cs ih => simp [List.lex, ih]

/-- The names of the fields in their order, each with its field. -/
structure InOrder (fields : List Field) (visits : List (String × Field)) : Prop where
  only : ∀ visit ∈ visits, visit.2 ∈ fields ∧ visit.1 ∈ visit.2.names
  all : ∀ field ∈ fields, ∀ name ∈ field.names, (name, field) ∈ visits
  sorted : visits.Pairwise fun visit later => precedes visit.1 later.1

/-- What is met first is the flaw of a field before which all can be read. -/
theorem InOrder.meets {fields : List Field} {visits : List (String × Field)} {o : Object}
    {flaw : Flaw} {field : Field} {name : String} {v : Json.Value} (h : InOrder fields visits)
    (hfield : field ∈ fields) (hname : name ∈ field.names) (hv : Json.latest name o = some v)
    (hflaw : field.read v = .error flaw)
    (hearlier : ∀ f ∈ fields, ∀ n ∈ f.names, precedes n name → ∀ w, Json.latest n o = some w →
      f.read w = .ok ()) : Meets o flaw visits := by
  have hmem := h.all field hfield name hname
  have hread : ∀ visit ∈ visits, precedes visit.1 name → ∀ w, Json.latest visit.1 o = some w →
      visit.2.read w = .ok () :=
    fun visit hvisit => hearlier _ (h.only visit hvisit).1 _ (h.only visit hvisit).2
  have hsorted := h.sorted
  clear h hearlier
  induction visits with
  | nil => simp at hmem
  | cons visit visits ih =>
    obtain ⟨hlater, hsorted⟩ := List.pairwise_cons.mp hsorted
    rcases List.mem_cons.mp hmem with rfl | hmem
    · exact .here hv hflaw
    · have hlt : precedes visit.1 name := hlater _ hmem
      exact .later (hread visit List.mem_cons_self hlt)
        (ih hmem (fun visit hvisit => hread visit (List.mem_cons_of_mem _ hvisit)) hsorted)

end Wire

open Wire

namespace Wire

section Readers

variable {α : Type} {node : Members α → Except Flaw α} (v : Json.Value)

private theorem outcome_text :
    outcome (Wire.text (Reading.ofValue node v).value) = Content.text.read v := by
  rw [Reading.value_ofValue, Content.read]

private theorem outcome_flag :
    outcome (flag (Reading.ofValue node v).value) = Content.flag.read v := by
  rw [Reading.value_ofValue, Content.read]

private theorem outcome_double :
    outcome (double (Reading.ofValue node v).value) = Content.double.read v := by
  rw [Reading.value_ofValue, Content.read]

private theorem nodesOf_eq_mapM (items : List Json.Value) :
    Reading.nodesOf node items = items.mapM fun item => (Reading.ofValue node item).node := by
  induction items with
  | nil => rfl
  | cons item items ih => rw [Reading.nodesOf, List.mapM_cons, ih]

private theorem nodes_eq_listOf : (Reading.ofValue node v).nodes
    = listOf (fun item => (Reading.ofValue node item).node) v := by
  cases v with
  | array items =>
    rw [Reading.ofValue, nodesOf_eq_mapM]
    cases h : items.mapM fun item => (Reading.ofValue node item).node <;>
      simp [listOf, Source.items, h, bind, Except.bind, pure, Except.pure]
  | _ => rfl

private theorem outcome_nullable {β : Type} {read : Json.Value → Except Flaw β}
    {read' : Json.Value → Except Flaw Unit} {v : Json.Value} (h : outcome (read v) = read' v) :
    outcome (nullable read v) = outcome (nullable read' v) := by
  have hsome : outcome (some <$> read v) = outcome (some <$> read' v) := by
    rw [← h]
    cases read v <;> rfl
  cases v with
  | null => rfl
  | _ => exact hsome

end Readers

end Wire

namespace Expression

theorem ofValue_eq_error {o : Object} {tag : Tag} {flaw : Flaw}
    (htag : Json.latest "type" o = some (.text tag.name))
    (h : ofFields (readings o) tag = .error flaw) :
    ofValue (.object o) = .error (.within tag.name flaw) := by
  have hknown : Tag.ofName? tag.name = some tag := (ofName?_eq_some _ _).mpr rfl
  rw [ofValue, Reading.ofValue]
  simp [ofMembers, Members.values_ofMembers, tagOf, htag, hknown, h, bind, Except.bind,
    Except.mapError]

private theorem outcome_node (v : Json.Value) :
    outcome (Reading.ofValue ofMembers v).node = (Content.node .expression).read v := rfl

private theorem outcome_nodes (v : Json.Value) :
    outcome (Reading.ofValue ofMembers v).nodes = (Content.nodes .expression).read v := by
  rw [nodes_eq_listOf]
  rfl

/-- The fields of a node with the tag in the order in which they are visited. -/
def Tag.visits : Tag → List (String × Field)
  | numberLiteral => [("value", ⟨["value"], .double, .flaw⟩)]
  | stringLiteral => [("value", ⟨["value"], .text, .flaw⟩)]
  | booleanLiteral => [("value", ⟨["value"], .flag, .flaw⟩)]
  | identifier => [("name", ⟨["name"], .text, .flaw⟩)]
  | binaryExpression =>
    [("left", ⟨["left"], .node .expression, .flaw⟩),
      ("operator", ⟨["operator"], .text, .flaw⟩),
      ("right", ⟨["right"], .node .expression, .flaw⟩)]
  | unaryExpression =>
    [("argument", ⟨["operand", "argument"], .node .expression, .flaw⟩),
      ("operand", ⟨["operand", "argument"], .node .expression, .flaw⟩),
      ("operator", ⟨["operator"], .text, .flaw⟩),
      ("prefix", ⟨["prefix"], .flag, .usual (.bool true)⟩)]
  | assignmentExpression =>
    [("left", ⟨["left"], .node .expression, .flaw⟩),
      ("operator", ⟨["operator"], .text, .usual (.text "=")⟩),
      ("right", ⟨["right"], .node .expression, .flaw⟩)]
  | conditionalExpression =>
    [("alternate", ⟨["alternate"], .node .expression, .flaw⟩),
      ("condition", ⟨["condition", "test"], .node .expression, .flaw⟩),
      ("consequent", ⟨["consequent"], .node .expression, .flaw⟩),
      ("test", ⟨["condition", "test"], .node .expression, .flaw⟩)]
  | callExpression =>
    [("arguments", ⟨["arguments"], .nodes .expression, .usual (.array [])⟩),
      ("callee", ⟨["callee"], .text, .flaw⟩)]
  | arrayAccess =>
    [("array", ⟨["array"], .node .expression, .flaw⟩),
      ("index", ⟨["index"], .node .expression, .flaw⟩)]

private theorem inOrder_visits (tag : Tag) {fields : List Field}
    (hfields : Kind.expression.fields? tag.name = some fields) : InOrder fields tag.visits := by
  cases tag <;> obtain rfl := Option.some.inj hfields <;>
    exact ⟨by simp [Tag.visits], by simp [Tag.visits], by decide +kernel⟩

private theorem ofFields_eq_error {tag : Tag} {fields : List Field} {o : Object} {flaw : Flaw}
    (hfields : Kind.expression.fields? tag.name = some fields) (honce : GivenOnce fields o)
    (h : Meets o flaw tag.visits) : ofFields (readings o) tag = .error flaw := by
  cases tag with
  | numberLiteral =>
    refine h.field? outcome_double fun value _ h => ?_
    cases h
  | stringLiteral =>
    refine h.field? outcome_text fun value _ h => ?_
    cases h
  | booleanLiteral =>
    refine h.field? outcome_flag fun value _ h => ?_
    cases h
  | identifier =>
    refine h.field? outcome_text fun name _ h => ?_
    cases h
  | binaryExpression =>
    refine h.field? outcome_node fun left _ h => ?_
    refine h.field? outcome_text fun operator _ h => ?_
    refine h.field? outcome_node fun right _ h => ?_
    cases h
  | unaryExpression =>
    obtain rfl := Option.some.inj hfields
    refine h.field? outcome_node fun operand hoperand h => ?_
    refine h.respelled? outcome_node (honce.eq_none (.tail _ (.head _)) (by simp) (by simp)
      (by decide) hoperand) fun operand h => ?_
    refine h.field? outcome_text fun operator _ h => ?_
    refine h.field? outcome_flag fun leading _ h => ?_
    cases h
  | assignmentExpression =>
    refine h.field? outcome_node fun left _ h => ?_
    refine h.field? outcome_text fun operator _ h => ?_
    refine h.field? outcome_node fun right _ h => ?_
    cases h
  | conditionalExpression =>
    obtain rfl := Option.some.inj hfields
    refine h.field? outcome_node fun alternate _ h => ?_
    refine h.field? outcome_node fun condition hcondition h => ?_
    refine h.field? outcome_node fun consequent _ h => ?_
    refine h.respelled? outcome_node (honce.eq_none (.head _) (by simp) (by simp)
      (by decide) hcondition) fun condition h => ?_
    cases h
  | callExpression =>
    refine h.field? outcome_nodes fun arguments _ h => ?_
    refine h.field? outcome_text fun callee _ h => ?_
    cases h
  | arrayAccess =>
    refine h.field? outcome_node fun array _ h => ?_
    refine h.field? outcome_node fun index _ h => ?_
    cases h

end Expression

namespace Variable

/-- The fields of a variable in the order in which they are visited. -/
def visits : List (String × Field) :=
  [("defaultValue", ⟨["defaultValue"], .node .expression, .nothing⟩),
    ("isInput", ⟨["isInput"], .flag, .usual (.bool false)⟩), ("name", ⟨["name"], .text, .flaw⟩),
    ("varType", ⟨["varType"], .text, .flaw⟩)]

private theorem inOrder_visits : InOrder variableFields visits :=
  ⟨by simp [variableFields, visits], by simp [variableFields, visits], by decide +kernel⟩

private theorem ofMembers_eq_error {o : Object} {flaw : Flaw} (h : Meets o flaw visits) :
    record.ofMembers o = .error flaw := by
  have hfields : record.putFields o record.sorted record.blank = .error flaw := by
    refine h.put (nullable Expression.ofValue) (fun part => ⟨none, none, part, none⟩)
      (fun _ => outcome_nullable rfl) (fun _ => rfl) rfl fun initial h => ?_
    refine h.put flag (fun part => ⟨none, none, initial, part⟩)
      (fun _ => rfl) (fun _ => rfl) rfl fun isInput h => ?_
    refine h.put Wire.text (fun part => ⟨part, none, initial, isInput⟩)
      (fun _ => rfl) (fun _ => rfl) rfl fun name h => ?_
    refine h.put Wire.text (fun part => ⟨name, part, initial, isInput⟩)
      (fun _ => rfl) (fun _ => rfl) rfl fun type h => ?_
    cases h
  exact bind_error hfields _

end Variable

namespace Statement

theorem ofValue_eq_error {o : Object} {tag : Tag} {flaw : Flaw}
    (htag : Json.latest "type" o = some (.text tag.name))
    (h : ofFields (readings o) tag = .error flaw) :
    ofValue (.object o) = .error (.within tag.name flaw) := by
  have hknown : Tag.ofName? tag.name = some tag := (ofName?_eq_some _ _).mpr rfl
  rw [ofValue, Reading.ofValue]
  simp [ofMembers, Members.values_ofMembers, tagOf, htag, hknown, h, bind, Except.bind,
    Except.mapError]

private theorem outcome_node (v : Json.Value) :
    outcome (Reading.ofValue ofMembers v).node = (Content.node .statement).read v := rfl

private theorem outcome_node? (v : Json.Value) : outcome (Reading.ofValue ofMembers v).node?
    = outcome (nullable (Content.node .statement).read v) := by
  rw [Reading.node?, Reading.value_ofValue]
  exact outcome_nullable rfl

private theorem outcome_nodes (v : Json.Value) :
    outcome (Reading.ofValue ofMembers v).nodes = (Content.nodes .statement).read v := by
  rw [nodes_eq_listOf]
  rfl

private theorem outcome_expression (v : Json.Value) :
    outcome (expressionOf (Reading.ofValue ofMembers v)) = (Content.node .expression).read v := by
  rw [expressionOf, Reading.value_ofValue]
  rfl

private theorem outcome_expression? (v : Json.Value) :
    outcome (expressionOf? (Reading.ofValue ofMembers v))
      = outcome (nullable (Content.node .expression).read v) := by
  rw [expressionOf?, Reading.value_ofValue]
  exact outcome_nullable rfl

/-- The fields of a node with the tag in the order in which they are visited. -/
def Tag.visits : Tag → List (String × Field)
  | blockStatement => [("body", ⟨["body"], .nodes .statement, .flaw⟩)]
  | ifStatement =>
    [("alternate", ⟨["alternate", "elseBranch"], .node .statement, .nothing⟩),
      ("condition", ⟨["condition"], .node .expression, .flaw⟩),
      ("consequent", ⟨["consequent", "thenBranch"], .node .statement, .flaw⟩),
      ("elseBranch", ⟨["alternate", "elseBranch"], .node .statement, .nothing⟩),
      ("thenBranch", ⟨["consequent", "thenBranch"], .node .statement, .flaw⟩)]
  | forStatement =>
    [("body", ⟨["body"], .node .statement, .flaw⟩),
      ("condition", ⟨["condition"], .node .expression, .nothing⟩),
      ("increment", ⟨["update", "increment"], .node .expression, .nothing⟩),
      ("init", ⟨["init"], .node .expression, .nothing⟩),
      ("update", ⟨["update", "increment"], .node .expression, .nothing⟩)]
  | whileStatement =>
    [("body", ⟨["body"], .node .statement, .flaw⟩),
      ("condition", ⟨["condition"], .node .expression, .flaw⟩)]
  | returnStatement =>
    [("argument", ⟨["value", "argument"], .node .expression, .nothing⟩),
      ("value", ⟨["value", "argument"], .node .expression, .nothing⟩)]
  | breakStatement => []
  | continueStatement => []
  | expressionStatement => [("expression", ⟨["expression"], .node .expression, .flaw⟩)]
  | variableDeclaration => Variable.visits

private theorem inOrder_visits (tag : Tag) {fields : List Field}
    (hfields : Kind.statement.fields? tag.name = some fields) : InOrder fields tag.visits := by
  cases tag with
  | variableDeclaration =>
    obtain rfl := Option.some.inj hfields
    exact Variable.inOrder_visits
  | _ =>
    obtain rfl := Option.some.inj hfields
    exact ⟨by simp [Tag.visits], by simp [Tag.visits], by decide +kernel⟩

private theorem ofFields_eq_error {tag : Tag} {fields : List Field} {o : Object} {flaw : Flaw}
    (hfields : Kind.statement.fields? tag.name = some fields) (honce : GivenOnce fields o)
    (h : Meets o flaw tag.visits) : ofFields (readings o) tag = .error flaw := by
  cases tag with
  | blockStatement =>
    refine h.field? outcome_nodes fun body _ h => ?_
    cases h
  | ifStatement =>
    obtain rfl := Option.some.inj hfields
    refine h.field? outcome_node? fun alternate halternate h => ?_
    refine h.field? outcome_expression fun condition _ h => ?_
    refine h.field? outcome_node fun consequent hconsequent h => ?_
    refine h.respelled? outcome_node? (honce.eq_none (.tail _ (.tail _ (.head _))) (by simp)
      (by simp) (by decide) halternate) fun alternate h => ?_
    refine h.respelled? outcome_node (honce.eq_none (.tail _ (.head _)) (by simp) (by simp)
      (by decide) hconsequent) fun consequent h => ?_
    cases h
  | forStatement =>
    obtain rfl := Option.some.inj hfields
    refine h.field? outcome_node fun body _ h => ?_
    refine h.field? outcome_expression? fun condition _ h => ?_
    refine h.field? outcome_expression? fun update hupdate h => ?_
    refine h.field? outcome_expression? fun init _ h => ?_
    refine h.respelled? outcome_expression? (honce.eq_none (.tail _ (.tail _ (.head _))) (by simp)
      (by simp) (by decide) hupdate) fun update h => ?_
    cases h
  | whileStatement =>
    refine h.field? outcome_node fun body _ h => ?_
    refine h.field? outcome_expression fun condition _ h => ?_
    cases h
  | returnStatement =>
    obtain rfl := Option.some.inj hfields
    refine h.field? outcome_expression? fun value hvalue h => ?_
    refine h.respelled? outcome_expression? (honce.eq_none (.head _) (by simp) (by simp)
      (by decide) hvalue) fun value h => ?_
    cases h
  | breakStatement | continueStatement => cases h
  | expressionStatement =>
    refine h.field? outcome_expression fun expression _ h => ?_
    cases h
  | variableDeclaration =>
    rw [ofFields, Members.values_ofMembers]
    exact bind_error (Variable.ofMembers_eq_error h) _

end Statement

namespace Function

/-- The fields of a function in the order in which they are visited. -/
def visits : List (String × Field) :=
  [("body", ⟨["body"], .node .statement, .flaw⟩), ("name", ⟨["name"], .text, .flaw⟩),
    ("parameters", ⟨["parameters"], .parameters, .usual (.array [])⟩),
    ("returnType", ⟨["returnType"], .text, .nothing⟩)]

private theorem inOrder_visits : InOrder functionFields visits :=
  ⟨by simp [functionFields, visits], by simp [functionFields, visits], by decide +kernel⟩

private theorem ofMembers_eq_error {o : Object} {flaw : Flaw} (h : Meets o flaw visits) :
    record.ofMembers o = .error flaw := by
  have hfields : record.putFields o record.sorted record.blank = .error flaw := by
    refine h.put Statement.ofValue (fun part => ⟨none, none, part, none⟩)
      (fun _ => rfl) (fun _ => rfl) rfl fun body h => ?_
    refine h.put Wire.text (fun part => ⟨part, none, body, none⟩)
      (fun _ => rfl) (fun _ => rfl) rfl fun name h => ?_
    refine h.put (listOf Parameter.read) (fun part => ⟨name, part, body, none⟩)
      (fun _ => rfl) (fun _ => rfl) rfl fun parameters h => ?_
    refine h.put (nullable Wire.text) (fun part => ⟨name, parameters, body, part⟩)
      (fun _ => outcome_nullable rfl) (fun _ => rfl) rfl fun returnType h => ?_
    cases h
  exact bind_error hfields _

end Function

namespace Declaration

theorem ofValue_eq_error {o : Object} {tag : Tag} {flaw : Flaw}
    (htag : Json.latest "type" o = some (.text tag.name)) (h : ofFields o tag = .error flaw) :
    ofValue (.object o) = .error (.within tag.name flaw) := by
  have hknown : Tag.ofName? tag.name = some tag := (ofName?_eq_some _ _).mpr rfl
  simp [ofValue, tagOf, htag, hknown, h, bind, Except.bind, Except.mapError]

/-- The fields of a node with the tag in the order in which they are visited. -/
def Tag.visits : Tag → List (String × Field)
  | variableDeclaration => Variable.visits
  | functionDeclaration => Function.visits

private theorem inOrder_visits (tag : Tag) {fields : List Field}
    (hfields : Kind.declaration.fields? tag.name = some fields) : InOrder fields tag.visits := by
  cases tag <;> obtain rfl := Option.some.inj hfields
  · exact Variable.inOrder_visits
  · exact Function.inOrder_visits

private theorem ofFields_eq_error {tag : Tag} {o : Object} {flaw : Flaw}
    (h : Meets o flaw tag.visits) :
    ofFields o tag = .error flaw := by
  cases tag with
  | variableDeclaration => exact bind_error (Variable.ofMembers_eq_error h) _
  | functionDeclaration => exact bind_error (Function.ofMembers_eq_error h) _

end Declaration

namespace Wire

private theorem mem_tags {kind : Kind} {tag : String} {fields : List Field}
    (h : kind.fields? tag = some fields) : tag ∈ match kind with
      | .expression => Expression.tags
      | .statement => Statement.tags
      | .declaration => Declaration.tags := by
  have hmem := List.mem_map_of_mem (f := Prod.fst) (mem_fieldTable h)
  cases kind <;> exact hmem

/-- A node is refused for the first of its fields, in the order of their names, that cannot be
read. -/
theorem ofValue_eq_error_of_field {kind : Kind} {tag : String} {fields : List Field} {o : Object}
    {field : Field} {name : String} {v : Json.Value} {flaw : Flaw}
    (hfields : kind.fields? tag = some fields) (htag : Json.latest "type" o = some (.text tag))
    (honce : GivenOnce fields o) (hfield : field ∈ fields) (hname : name ∈ field.names)
    (hearlier : ∀ f ∈ fields, ∀ n ∈ f.names, precedes n name → ∀ w, Json.latest n o = some w →
      f.read w = .ok ()) (hv : Json.latest name o = some v) (hflaw : field.read v = .error flaw) :
    kind.ofValue (.object o) = .error (.within tag flaw) := by
  have hknown := mem_tags hfields
  cases kind with
  | expression =>
    obtain ⟨known, -, rfl⟩ := List.mem_map.mp hknown
    have hmeets := (Expression.inOrder_visits known hfields).meets hfield hname hv hflaw hearlier
    exact Expression.ofValue_eq_error htag (Expression.ofFields_eq_error hfields honce hmeets)
  | statement =>
    obtain ⟨known, -, rfl⟩ := List.mem_map.mp hknown
    have hmeets := (Statement.inOrder_visits known hfields).meets hfield hname hv hflaw hearlier
    exact Statement.ofValue_eq_error htag (Statement.ofFields_eq_error hfields honce hmeets)
  | declaration =>
    obtain ⟨known, -, rfl⟩ := List.mem_map.mp hknown
    have hmeets := (Declaration.inOrder_visits known hfields).meets hfield hname hv hflaw hearlier
    exact Declaration.ofValue_eq_error htag (Declaration.ofFields_eq_error hmeets)

end Wire

end Advisor
