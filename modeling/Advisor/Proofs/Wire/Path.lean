import Advisor.Proofs.Wire.Declaration
import Mathlib.Logic.Relation

/-!
# Nodes inside nodes

Which fields of a node hold nodes again, and what follows for a node if one inside it is refused. A
node that is not supported holds none, whatever is written in it.
-/

namespace Advisor.Wire

/-- The kinds of nodes, by what they are read as. -/
inductive Kind where
  | expression
  | statement
  | declaration
deriving DecidableEq, Repr

/-- The value is read as a node of the kind. -/
def Kind.Accepts : Kind → Json.Value → Prop
  | expression, v => ∃ e, Expression.ofValue v = .ok e
  | statement, v => ∃ s, Statement.ofValue v = .ok s
  | declaration, v => ∃ d, Declaration.ofValue v = .ok d

/-- How a field holds nodes: one, one or null, or a sequence of them. -/
inductive Form where
  | single
  | nullable
  | sequence
deriving DecidableEq, Repr

/-- The value of a field holds the node. -/
def Form.Holds : Form → Json.Value → Json.Value → Prop
  | single, v, node => node = v
  | nullable, v, node => node = v ∧ v ≠ .null
  | sequence, v, node => ∃ items, v = .array items ∧ node ∈ items

/-- A name under which a node holds nodes of the kind. -/
structure NodeField where
  name : String
  kind : Kind
  form : Form
deriving DecidableEq, Repr

/-- The names under which the nodes of the kind hold nodes, by their tags. -/
def Kind.nodeTable : Kind → List (String × List NodeField)
  | expression =>
    [("BinaryExpression", [⟨"left", expression, .single⟩, ⟨"right", expression, .single⟩]),
      ("UnaryExpression", [⟨"operand", expression, .single⟩, ⟨"argument", expression, .single⟩]),
      ("AssignmentExpression", [⟨"left", expression, .single⟩, ⟨"right", expression, .single⟩]),
      ("ConditionalExpression", [⟨"condition", expression, .single⟩, ⟨"test", expression, .single⟩,
        ⟨"consequent", expression, .single⟩, ⟨"alternate", expression, .single⟩]),
      ("CallExpression", [⟨"arguments", expression, .sequence⟩]),
      ("ArrayAccess", [⟨"array", expression, .single⟩, ⟨"index", expression, .single⟩])]
  | statement =>
    [("BlockStatement", [⟨"body", statement, .sequence⟩]),
      ("IfStatement", [⟨"condition", expression, .single⟩, ⟨"consequent", statement, .single⟩,
        ⟨"thenBranch", statement, .single⟩, ⟨"alternate", statement, .nullable⟩,
        ⟨"elseBranch", statement, .nullable⟩]),
      ("ForStatement", [⟨"init", expression, .nullable⟩, ⟨"condition", expression, .nullable⟩,
        ⟨"update", expression, .nullable⟩, ⟨"increment", expression, .nullable⟩,
        ⟨"body", statement, .single⟩]),
      ("WhileStatement", [⟨"condition", expression, .single⟩, ⟨"body", statement, .single⟩]),
      ("ReturnStatement", [⟨"value", expression, .nullable⟩, ⟨"argument", expression, .nullable⟩]),
      ("ExpressionStatement", [⟨"expression", expression, .single⟩]),
      ("VariableDeclaration", [⟨"defaultValue", expression, .nullable⟩])]
  | declaration =>
    [("VariableDeclaration", [⟨"defaultValue", expression, .nullable⟩]),
      ("FunctionDeclaration", [⟨"body", statement, .single⟩])]

/-- The names under which a node with the tag holds nodes. -/
def Kind.nodeFields (kind : Kind) (tag : String) : List NodeField :=
  (kind.nodeTable.lookup tag).getD []

/-- The second node stands in a field of the first. -/
def Child (parent child : Kind × Json.Value) : Prop :=
  ∃ tag, ∃ field ∈ parent.1.nodeFields tag, child.1 = field.kind ∧
    IsNode tag (fun o => ∃ v, Json.latest field.name o = some v ∧ field.form.Holds v child.2) parent.2

section Fields

variable {α : Type} {o : Object} {name : String} {names : List String} {v w : Json.Value}

theorem eq_of_gives (h : Gives o names w) (hname : name ∈ names)
    (hv : Json.latest name o = some v) : w = v := by
  obtain ⟨given, -, hw, hothers⟩ := h
  by_cases heq : name = given
  · rw [heq, hw] at hv
    exact Option.some.inj hv
  · rw [hothers name hname heq] at hv
    exact absurd hv (by simp)

private theorem Required.of_latest {shape : Json.Value → Prop} (h : Required o names shape)
    (hname : name ∈ names) (hv : Json.latest name o = some v) : shape v := by
  obtain ⟨w, hgives, hw⟩ := h
  rwa [eq_of_gives hgives hname hv] at hw

private theorem Defaulted.of_latest {shape : Json.Value → Prop} {isUsual : Prop}
    (h : Defaulted o names shape isUsual) (hname : name ∈ names)
    (hv : Json.latest name o = some v) : shape v := by
  rcases h with h | ⟨hlacks, -⟩
  · exact h.of_latest hname hv
  · rw [hlacks name hname] at hv
    exact absurd hv (by simp)

private theorem Optional.of_latest {shape : α → Json.Value → Prop} {part : Option α}
    (h : Optional o names shape part) (hname : name ∈ names) (hv : Json.latest name o = some v)
    (hnull : v ≠ .null) : ∃ a, shape a v := by
  cases part with
  | some a => exact ⟨a, Required.of_latest h hname hv⟩
  | none =>
    rcases h with hlacks | hgives
    · rw [hlacks name hname] at hv
      exact absurd hv (by simp)
    · exact absurd (eq_of_gives hgives hname hv).symm hnull

end Fields

theorem exists_of_forall₂ {α β : Type} {R : α → β → Prop} {as : List α} {bs : List β} {a : α}
    (h : List.Forall₂ R as bs) (ha : a ∈ as) : ∃ b, R a b := by
  induction h with
  | nil => simp at ha
  | cons hhead _ ih =>
    rcases List.mem_cons.mp ha with rfl | ha
    · exact ⟨_, hhead⟩
    · exact ih ha

/-- The nodes that the object holds in the field are accepted. -/
def Sound (o : Object) (field : NodeField) : Prop :=
  ∀ v node, Json.latest field.name o = some v → field.form.Holds v node → field.kind.Accepts node

section Sound

variable {o : Object} {name : String} {names : List String}

private theorem accepts_expression {v : Json.Value} {e : Expression} (h : e.Written v) :
    Kind.expression.Accepts v :=
  ⟨e, Expression.ofValue_iff.mpr h⟩

private theorem accepts_statement {v : Json.Value} {s : Statement} (h : s.Written v) :
    Kind.statement.Accepts v :=
  ⟨s, Statement.ofValue_iff.mpr h⟩

private theorem sound_expression {e : Expression} (h : Required o names e.Written)
    (hname : name ∈ names) :
    Sound o ⟨name, .expression, .single⟩ := by
  rintro v _ hv rfl
  exact accepts_expression (h.of_latest hname hv)

private theorem sound_statement {s : Statement} (h : Required o names s.Written)
    (hname : name ∈ names) :
    Sound o ⟨name, .statement, .single⟩ := by
  rintro v _ hv rfl
  exact accepts_statement (h.of_latest hname hv)

private theorem sound_expression? {part : Option Expression}
    (h : Optional o names Expression.Written part)
    (hname : name ∈ names) : Sound o ⟨name, .expression, .nullable⟩ := by
  rintro v _ hv ⟨rfl, hnull⟩
  obtain ⟨e, he⟩ := h.of_latest hname hv hnull
  exact accepts_expression he

private theorem sound_statement? {part : Option Statement}
    (h : Optional o names Statement.Written part)
    (hname : name ∈ names) : Sound o ⟨name, .statement, .nullable⟩ := by
  rintro v _ hv ⟨rfl, hnull⟩
  obtain ⟨s, hs⟩ := h.of_latest hname hv hnull
  exact accepts_statement hs

private theorem sound_expressions {es : List Expression} {isUsual : Prop}
    (h : Defaulted o names (fun v => ∃ items, v = .array items ∧ Expression.AllWritten es items) isUsual)
    (hname : name ∈ names) : Sound o ⟨name, .expression, .sequence⟩ := by
  rintro v node hv ⟨items, rfl, hnode⟩
  obtain ⟨items', hitems, hwritten⟩ := h.of_latest hname hv
  obtain rfl := Json.Value.array.inj hitems
  obtain ⟨e, he⟩ := exists_of_forall₂ (Expression.allWritten_iff.mp hwritten) hnode
  exact accepts_expression he

private theorem sound_statements {ss : List Statement}
    (h : Required o names fun v => ∃ items, v = .array items ∧ Statement.AllWritten ss items)
    (hname : name ∈ names) : Sound o ⟨name, .statement, .sequence⟩ := by
  rintro v node hv ⟨items, rfl, hnode⟩
  obtain ⟨items', hitems, hwritten⟩ := h.of_latest hname hv
  obtain rfl := Json.Value.array.inj hitems
  obtain ⟨s, hs⟩ := exists_of_forall₂ (Statement.allWritten_iff.mp hwritten) hnode
  exact accepts_statement hs

end Sound

/-- The nodes in the fields of a node with the tag are accepted, if the fields are as they must. -/
def Kind.Nests (kind : Kind) (tag : String) (fields : Object → Prop) : Prop :=
  ∀ o, fields o → ∀ field ∈ kind.nodeFields tag, Sound o field

section Nests

variable {kind : Kind} {tag : String} {fields : Object → Prop}

private theorem nests_of_lookup {held : List NodeField} (h : kind.nodeTable.lookup tag = some held)
    (hsound : ∀ o, fields o → ∀ field ∈ held, Sound o field) : kind.Nests tag fields := by
  intro o ho field hfield
  rw [Kind.nodeFields, h] at hfield
  exact hsound o ho field hfield

private theorem nests_of_lookup_none (h : kind.nodeTable.lookup tag = none) :
    kind.Nests tag fields := by
  intro o _ field hfield
  simp [Kind.nodeFields, h] at hfield

private theorem nests_unknown {tags : List String} (h : ∀ entry ∈ kind.nodeTable, entry.1 ∈ tags) :
    kind.Nests tag fun _ => tag ∉ tags := by
  intro o htag
  have hnone : kind.nodeTable.lookup tag = none := by
    rw [List.lookup_eq_none_iff]
    intro entry hentry
    rw [bne_iff_ne]
    rintro rfl
    exact htag (h entry hentry)
  have hnests : kind.Nests tag fun _ => tag ∉ tags := nests_of_lookup_none hnone
  exact hnests o htag

end Nests

/-- A value that is accepted is a node whose fields hold accepted nodes. -/
def Kind.Nested (kind : Kind) (written : Json.Value → Prop) : Prop :=
  ∃ tag fields, written = IsNode tag fields ∧ kind.Nests tag fields

private theorem nested_expression (e : Expression) : Kind.expression.Nested e.Written := by
  cases e with
  | binary operator left right =>
    refine ⟨_, _, by rw [Expression.Written], nests_of_lookup rfl ?_⟩
    rintro o ⟨-, hleft, hright⟩
    simp only [List.forall_mem_cons]
    exact ⟨sound_expression hleft (by simp), sound_expression hright (by simp), by simp⟩
  | unary operator leading operand =>
    refine ⟨_, _, by rw [Expression.Written], nests_of_lookup rfl ?_⟩
    rintro o ⟨-, hoperand, -⟩
    simp only [List.forall_mem_cons]
    exact ⟨sound_expression hoperand (by simp), sound_expression hoperand (by simp), by simp⟩
  | assignment operator left right =>
    refine ⟨_, _, by rw [Expression.Written], nests_of_lookup rfl ?_⟩
    rintro o ⟨-, hleft, hright⟩
    simp only [List.forall_mem_cons]
    exact ⟨sound_expression hleft (by simp), sound_expression hright (by simp), by simp⟩
  | conditional condition consequent alternate =>
    refine ⟨_, _, by rw [Expression.Written], nests_of_lookup rfl ?_⟩
    rintro o ⟨hcondition, hconsequent, halternate⟩
    simp only [List.forall_mem_cons]
    exact ⟨sound_expression hcondition (by simp), sound_expression hcondition (by simp),
      sound_expression hconsequent (by simp), sound_expression halternate (by simp), by simp⟩
  | call callee arguments =>
    refine ⟨_, _, by rw [Expression.Written], nests_of_lookup rfl ?_⟩
    rintro o ⟨-, harguments⟩
    simp only [List.forall_mem_cons]
    exact ⟨sound_expressions harguments (by simp), by simp⟩
  | element array index =>
    refine ⟨_, _, by rw [Expression.Written], nests_of_lookup rfl ?_⟩
    rintro o ⟨harray, hindex⟩
    simp only [List.forall_mem_cons]
    exact ⟨sound_expression harray (by simp), sound_expression hindex (by simp), by simp⟩
  | number | text | boolean | identifier =>
    exact ⟨_, _, by rw [Expression.Written], nests_of_lookup_none rfl⟩
  | unsupported kind =>
    exact ⟨_, _, by rw [Expression.Written], nests_unknown (by decide)⟩

private theorem nests_variable {kind : Kind} {tag : String} (x : Variable)
    (h : kind.nodeTable.lookup tag = some [⟨"defaultValue", .expression, .nullable⟩]) :
    kind.Nests tag x.Fields := by
  refine nests_of_lookup h ?_
  rintro o ⟨-, -, hinitial, -⟩
  simp only [List.forall_mem_cons]
  exact ⟨sound_expression? hinitial (by simp), by simp⟩

private theorem nested_statement (s : Statement) : Kind.statement.Nested s.Written := by
  cases s with
  | block body =>
    refine ⟨_, _, by rw [Statement.Written], nests_of_lookup rfl ?_⟩
    rintro o hbody
    simp only [List.forall_mem_cons]
    exact ⟨sound_statements hbody (by simp), by simp⟩
  | branch condition consequent alternate =>
    refine ⟨_, _, Statement.written_branch, nests_of_lookup rfl ?_⟩
    rintro o ⟨hcondition, hconsequent, halternate⟩
    simp only [List.forall_mem_cons]
    exact ⟨sound_expression hcondition (by simp), sound_statement hconsequent (by simp),
      sound_statement hconsequent (by simp), sound_statement? halternate (by simp),
      sound_statement? halternate (by simp), by simp⟩
  | forLoop init condition update body =>
    refine ⟨_, _, by rw [Statement.Written], nests_of_lookup rfl ?_⟩
    rintro o ⟨hinit, hcondition, hupdate, hbody⟩
    simp only [List.forall_mem_cons]
    exact ⟨sound_expression? hinit (by simp), sound_expression? hcondition (by simp),
      sound_expression? hupdate (by simp), sound_expression? hupdate (by simp),
      sound_statement hbody (by simp), by simp⟩
  | whileLoop condition body =>
    refine ⟨_, _, by rw [Statement.Written], nests_of_lookup rfl ?_⟩
    rintro o ⟨hcondition, hbody⟩
    simp only [List.forall_mem_cons]
    exact ⟨sound_expression hcondition (by simp), sound_statement hbody (by simp), by simp⟩
  | returns value =>
    refine ⟨_, _, by rw [Statement.Written], nests_of_lookup rfl ?_⟩
    rintro o hvalue
    simp only [List.forall_mem_cons]
    exact ⟨sound_expression? hvalue (by simp), sound_expression? hvalue (by simp), by simp⟩
  | evaluate expression =>
    refine ⟨_, _, by rw [Statement.Written], nests_of_lookup rfl ?_⟩
    rintro o hexpression
    simp only [List.forall_mem_cons]
    exact ⟨sound_expression hexpression (by simp), by simp⟩
  | declare declared =>
    exact ⟨_, _, by rw [Statement.Written], nests_variable declared rfl⟩
  | breaks | continues =>
    exact ⟨_, _, by rw [Statement.Written], nests_of_lookup_none rfl⟩
  | unsupported kind =>
    exact ⟨_, _, by rw [Statement.Written], nests_unknown (by decide)⟩

private theorem nested_declaration (d : Declaration) : Kind.declaration.Nested d.Written := by
  rcases d with declared | declared | kind
  · exact ⟨_, _, rfl, nests_variable declared rfl⟩
  · refine ⟨_, _, rfl, nests_of_lookup rfl ?_⟩
    rintro o ⟨-, -, hbody, -⟩
    simp only [List.forall_mem_cons]
    exact ⟨sound_statement hbody (by simp), by simp⟩
  · exact ⟨_, _, rfl, nests_unknown (by decide)⟩

/-- Whatever is accepted is a writing whose nodes are accepted too. -/
theorem Kind.Accepts.nested {kind : Kind} {v : Json.Value} (h : kind.Accepts v) :
    ∃ written, written v ∧ kind.Nested written := by
  cases kind with
  | expression =>
    obtain ⟨e, he⟩ := h
    exact ⟨_, Expression.ofValue_iff.mp he, nested_expression e⟩
  | statement =>
    obtain ⟨s, hs⟩ := h
    exact ⟨_, Statement.ofValue_iff.mp hs, nested_statement s⟩
  | declaration =>
    obtain ⟨d, hd⟩ := h
    exact ⟨_, Declaration.ofValue_iff.mp hd, nested_declaration d⟩

theorem Kind.Accepts.isNode {kind : Kind} {v : Json.Value} (h : kind.Accepts v) :
    ∃ tag, IsNode tag (fun _ => True) v := by
  obtain ⟨_, hv, tag, fields, rfl, -⟩ := h.nested
  obtain ⟨o, rfl, htag, -⟩ := hv
  exact ⟨tag, o, rfl, htag, trivial⟩

/-- The step of a path: what stands in a node that is accepted is accepted. -/
theorem Child.accepts {parent child : Kind × Json.Value} (h : Child parent child)
    (hparent : parent.1.Accepts parent.2) : child.1.Accepts child.2 := by
  obtain ⟨kind, v⟩ := parent
  obtain ⟨_, hv, tag, fields, rfl, hnests⟩ := hparent.nested
  obtain ⟨o, rfl, htag, hfields⟩ := hv
  obtain ⟨tag', field, hfield, hkind, o', ho, htag', value, hvalue, hholds⟩ := h
  obtain rfl := Json.Value.object.inj ho
  obtain rfl : tag = tag' := Json.Value.text.inj (Option.some.inj (htag.symm.trans htag'))
  rw [hkind]
  exact hnests o hfields field hfield value _ hvalue hholds

/-- A whole path: what is reached from a node that is accepted is accepted. -/
theorem accepts_of_path {node inner : Kind × Json.Value}
    (hpath : Relation.ReflTransGen Child node inner) (h : node.1.Accepts node.2) :
    inner.1.Accepts inner.2 := by
  induction hpath with
  | refl => exact h
  | tail _ hchild ih => exact hchild.accepts ih

end Advisor.Wire
