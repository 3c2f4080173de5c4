import Advisor.Proofs.Script.WellFormed
import Advisor.Proofs.Wire.Declaration

/-!
# Reading undoes writing

How a tree is written as a value: a node is an object with its tag and with its parts under their
first names, in any order, where an optional part that is absent is left out or null. Reading gives
the tree back. A node that is not supported must not be called like one that is, since it would be
read as that.
-/

namespace Advisor

namespace Wire

/-- What stands under the names of an object, where a name without a value is left out. -/
abbrev Entries := List (String × Option Json.Value)

/-- The value is an object with these entries, in any order. -/
def IsObject (entries : Entries) (v : Json.Value) : Prop :=
  ∃ o, v = .object o ∧ ∀ name, Json.latest name o = (entries.lookup name).join

/-- The value is an object with the tag and these entries, in any order. -/
def IsTagged (tag : String) (entries : Entries) (v : Json.Value) : Prop :=
  IsObject (("type", some (.text tag)) :: entries) v

/-- The entry of an optional part. -/
def IsPart {α : Type} (encodes : α → Json.Value → Prop) :
    Option α → Option Json.Value → Prop
  | some a, entry => ∃ v, encodes a v ∧ entry = some v
  | none, entry => entry = none ∨ entry = some .null

section Entries

variable {α : Type} {o : Object} {name : String} {names : List String} {v : Json.Value}
  {entry : Option Json.Value} {entries : Entries} {tag : String} {part : Option α}
  {encodes : α → Json.Value → Prop}

private theorem isObject_members (entries : Entries) (h : (entries.map Prod.fst).Nodup) :
    IsObject entries (.object (entries.filterMap fun e => e.2.map (Prod.mk e.1))) := by
  refine ⟨_, rfl, ?_⟩
  induction entries with
  | nil => exact fun _ => rfl
  | cons head entries ih =>
    obtain ⟨key, entry⟩ := head
    obtain ⟨hkey, hentries⟩ := List.nodup_cons.mp h
    have hlookup : entries.lookup key = none := by
      rw [List.lookup_eq_none_iff]
      intro other hother
      rw [bne_iff_ne]
      rintro rfl
      exact hkey (List.mem_map.mpr ⟨other, hother, rfl⟩)
    intro name
    have hrest := ih hentries name
    rw [List.lookup_cons]
    by_cases hname : name = key
    · rw [hname, hlookup] at hrest
      cases entry <;> simp [hname, Json.latest, hrest]
    · have hbeq : (name == key) = false := beq_false_of_ne hname
      cases entry with
      | none => simpa [hbeq] using hrest
      | some v =>
        simp only [List.filterMap_cons, Option.map_some, Json.latest, hrest, hbeq, Ne.symm hname,
          if_false]
        cases (entries.lookup name).join <;> rfl

private theorem exists_isTagged (h : ("type" :: entries.map Prod.fst).Nodup) :
    ∃ v, IsTagged tag entries v :=
  ⟨_, isObject_members _ h⟩

private theorem exists_isPart (encodes : α → Json.Value → Prop) (part : Option α)
    (h : ∀ a ∈ part, ∃ v, encodes a v) : ∃ entry, IsPart encodes part entry := by
  cases part with
  | none => exact ⟨none, Or.inl rfl⟩
  | some a =>
    obtain ⟨v, hv⟩ := h a rfl
    exact ⟨some v, v, hv, rfl⟩

theorem IsTagged.isNode {fields : Object → Prop} (h : IsTagged tag entries v)
    (hfields : ∀ o : Object, (∀ name, Json.latest name o
      = ((("type", some (Json.Value.text tag)) :: entries).lookup name).join) → fields o) :
    IsNode tag fields v := by
  obtain ⟨o, rfl, ho⟩ := h
  exact ⟨o, rfl, ho "type", hfields o ho⟩

private theorem gives_first (h : Json.latest name o = some v)
    (hothers : ∀ other ∈ names, Json.latest other o = none) : Gives o (name :: names) v := by
  refine ⟨name, List.mem_cons_self, h, fun other hother hne => hothers other ?_⟩
  exact (List.mem_cons.mp hother).resolve_left hne

private theorem required_first {shape : Json.Value → Prop} (h : Json.latest name o = some v)
    (hothers : ∀ other ∈ names, Json.latest other o = none) (hshape : shape v) :
    Required o (name :: names) shape :=
  ⟨v, gives_first h hothers, hshape⟩

private theorem required_only {shape : Json.Value → Prop} (h : Json.latest name o = some v)
    (hshape : shape v) : Required o [name] shape :=
  required_first h (by simp) hshape

private theorem absent_first (h : Json.latest name o = entry)
    (hothers : ∀ other ∈ names, Json.latest other o = none) (hentry : entry = none ∨ entry = some .null) :
    Lacks o (name :: names) ∨ Gives o (name :: names) .null := by
  rcases hentry with rfl | rfl
  · exact Or.inl (List.forall_mem_cons.mpr ⟨h, hothers⟩)
  · exact Or.inr (gives_first h hothers)

private theorem optional_first {shape : α → Json.Value → Prop} (h : Json.latest name o = entry)
    (hothers : ∀ other ∈ names, Json.latest other o = none) (hpart : IsPart encodes part entry)
    (hshape : ∀ a ∈ part, ∀ v, encodes a v → shape a v) :
    Optional o (name :: names) shape part := by
  cases part with
  | some a =>
    obtain ⟨v, hv, rfl⟩ := hpart
    exact required_first h hothers (hshape a rfl v hv)
  | none => exact absent_first h hothers hpart

private theorem optional_only {shape : α → Json.Value → Prop} (h : Json.latest name o = entry)
    (hpart : IsPart encodes part entry) (hshape : ∀ a ∈ part, ∀ v, encodes a v → shape a v) :
    Optional o [name] shape part :=
  optional_first h (by simp) hpart hshape

end Entries

section Sequences

variable {α β : Type} {R : α → β → Prop} {S : β → α → Prop} {as : List α} {bs : List β}

private theorem exists_forall₂ (h : ∀ a ∈ as, ∃ b, R a b) : ∃ bs, List.Forall₂ R as bs := by
  induction as with
  | nil => exact ⟨[], .nil⟩
  | cons a as ih =>
    obtain ⟨⟨b, hb⟩, has⟩ := List.forall_mem_cons.mp h
    obtain ⟨bs, hbs⟩ := ih has
    exact ⟨b :: bs, .cons hb hbs⟩

private theorem forall₂_flip_of_mem (h : List.Forall₂ R as bs)
    (himp : ∀ a ∈ as, ∀ b, R a b → S b a) :
    List.Forall₂ S bs as := by
  induction h with
  | nil => exact .nil
  | cons hab _ ih =>
    obtain ⟨ha, has⟩ := List.forall_mem_cons.mp himp
    exact .cons (ha _ hab) (ih has)

end Sequences

end Wire

open Wire

namespace Expression

mutual

/-- The value is the expression as it is written. -/
def Encodes : Expression → Json.Value → Prop
  | number x, v => ∃ n, ofNumber n = x ∧ IsTagged "NumberLiteral" [("value", some (.number n))] v
  | text s, v => IsTagged "StringLiteral" [("value", some (.text s))] v
  | boolean b, v => IsTagged "BooleanLiteral" [("value", some (.bool b))] v
  | identifier name, v => IsTagged "Identifier" [("name", some (.text name))] v
  | binary operator left right, v => ∃ l r, left.Encodes l ∧ right.Encodes r
    ∧ IsTagged "BinaryExpression"
      [("operator", some (.text operator)), ("left", some l), ("right", some r)] v
  | unary operator leading operand, v => ∃ e, operand.Encodes e
    ∧ IsTagged "UnaryExpression"
      [("operator", some (.text operator)), ("operand", some e), ("prefix", some (.bool leading))] v
  | assignment operator left right, v => ∃ l r, left.Encodes l ∧ right.Encodes r
    ∧ IsTagged "AssignmentExpression"
      [("operator", some (.text operator)), ("left", some l), ("right", some r)] v
  | conditional condition consequent alternate, v => ∃ c l r, condition.Encodes c
    ∧ consequent.Encodes l ∧ alternate.Encodes r
    ∧ IsTagged "ConditionalExpression"
      [("condition", some c), ("consequent", some l), ("alternate", some r)] v
  | call callee arguments, v => ∃ items, EncodesAll arguments items
    ∧ IsTagged "CallExpression"
      [("callee", some (.text callee)), ("arguments", some (.array items))] v
  | element array index, v => ∃ a i, array.Encodes a ∧ index.Encodes i
    ∧ IsTagged "ArrayAccess" [("array", some a), ("index", some i)] v
  | unsupported kind, v => IsTagged kind [] v

/-- The values are the expressions as they are written, in order. -/
def EncodesAll : List Expression → List Json.Value → Prop
  | [], items => items = []
  | e :: es, items => ∃ item rest, e.Encodes item ∧ EncodesAll es rest ∧ items = item :: rest

end

/-- No kind in the expression is the tag of a supported one. -/
def KindsUnknown (e : Expression) : Prop := ∀ kind ∈ e.kinds, kind ∉ tags

private theorem encodesAll_iff {es : List Expression} {items : List Json.Value} :
    EncodesAll es items ↔ List.Forall₂ Encodes es items := by
  induction es generalizing items with
  | nil => simp [EncodesAll]
  | cons e es ih =>
    rw [EncodesAll, List.forall₂_cons_left_iff]
    simp only [ih]

private theorem exists_encodes (e : Expression) : ∃ v, e.Encodes v := by
  induction e with
  | number x =>
    exact (exists_isTagged (by simp)).imp fun v hv => ⟨.real x, rfl, hv⟩
  | text | boolean | identifier | unsupported => exact exists_isTagged (by simp)
  | binary operator left right ihl ihr | assignment operator left right ihl ihr =>
    obtain ⟨l, hl⟩ := ihl
    obtain ⟨r, hr⟩ := ihr
    exact (exists_isTagged (by simp)).imp fun v hv => ⟨l, r, hl, hr, hv⟩
  | unary operator leading operand ih =>
    obtain ⟨e, he⟩ := ih
    exact (exists_isTagged (by simp)).imp fun v hv => ⟨e, he, hv⟩
  | conditional condition consequent alternate ihc ihl ihr =>
    obtain ⟨c, hc⟩ := ihc
    obtain ⟨l, hl⟩ := ihl
    obtain ⟨r, hr⟩ := ihr
    exact (exists_isTagged (by simp)).imp fun v hv => ⟨c, l, r, hc, hl, hr, hv⟩
  | call callee arguments ih =>
    obtain ⟨items, hitems⟩ := exists_forall₂ ih
    exact (exists_isTagged (by simp)).imp fun v hv => ⟨items, encodesAll_iff.mpr hitems, hv⟩
  | element array index iha ihi =>
    obtain ⟨a, ha⟩ := iha
    obtain ⟨i, hi⟩ := ihi
    exact (exists_isTagged (by simp)).imp fun v hv => ⟨a, i, ha, hi, hv⟩

theorem Encodes.written {e : Expression} {v : Json.Value} (h : e.Encodes v)
    (hkinds : e.KindsUnknown) : e.Written v := by
  rw [KindsUnknown] at hkinds
  induction e generalizing v with
  | number x =>
    obtain ⟨n, hn, hv⟩ := h
    exact hv.isNode fun o ho => required_only (ho "value") ⟨n, rfl, hn⟩
  | text s => exact IsTagged.isNode h fun o ho => required_only (ho "value") rfl
  | boolean b => exact IsTagged.isNode h fun o ho => required_only (ho "value") rfl
  | identifier name => exact IsTagged.isNode h fun o ho => required_only (ho "name") rfl
  | binary operator left right ihl ihr =>
    obtain ⟨l, r, hl, hr, hv⟩ := h
    rw [kinds_binary, List.forall_mem_append] at hkinds
    exact hv.isNode fun o ho => ⟨required_only (ho "operator") rfl,
      required_only (ho "left") (ihl hl hkinds.1), required_only (ho "right") (ihr hr hkinds.2)⟩
  | unary operator leading operand ih =>
    obtain ⟨e, he, hv⟩ := h
    rw [kinds_unary] at hkinds
    exact hv.isNode fun o ho => ⟨required_only (ho "operator") rfl,
      required_first (ho "operand") (List.forall_mem_singleton.mpr (ho "argument")) (ih he hkinds),
      Or.inl (required_only (ho "prefix") rfl)⟩
  | assignment operator left right ihl ihr =>
    obtain ⟨l, r, hl, hr, hv⟩ := h
    rw [kinds_assignment, List.forall_mem_append] at hkinds
    exact hv.isNode fun o ho => ⟨Or.inl (required_only (ho "operator") rfl),
      required_only (ho "left") (ihl hl hkinds.1), required_only (ho "right") (ihr hr hkinds.2)⟩
  | conditional condition consequent alternate ihc ihl ihr =>
    obtain ⟨c, l, r, hc, hl, hr, hv⟩ := h
    simp only [kinds_conditional, List.forall_mem_append] at hkinds
    exact hv.isNode fun o ho =>
      ⟨required_first (ho "condition") (List.forall_mem_singleton.mpr (ho "test"))
          (ihc hc hkinds.1.1),
        required_only (ho "consequent") (ihl hl hkinds.1.2),
        required_only (ho "alternate") (ihr hr hkinds.2)⟩
  | call callee arguments ih =>
    obtain ⟨items, hitems, hv⟩ := h
    rw [kinds_call, List.forall_mem_flatMap] at hkinds
    have hwritten : AllWritten arguments items := allWritten_iff.mpr <|
      forall₂_flip_of_mem (encodesAll_iff.mp hitems) fun e he v hv => ih e he hv (hkinds e he)
    exact hv.isNode fun o ho => ⟨required_only (ho "callee") rfl,
      Or.inl (required_only (ho "arguments") ⟨items, rfl, hwritten⟩)⟩
  | element array index iha ihi =>
    obtain ⟨a, i, ha, hi, hv⟩ := h
    rw [kinds_element, List.forall_mem_append] at hkinds
    exact hv.isNode fun o ho => ⟨required_only (ho "array") (iha ha hkinds.1),
      required_only (ho "index") (ihi hi hkinds.2)⟩
  | unsupported kind =>
    exact IsTagged.isNode h fun _ _ => hkinds kind (by simp)

end Expression

namespace Variable

/-- The value is the variable as it is written. -/
def Encodes (x : Variable) (v : Json.Value) : Prop :=
  ∃ initial, IsPart Expression.Encodes x.initial initial
    ∧ IsTagged "VariableDeclaration" [("name", some (.text x.name)), ("varType", some (.text x.type)),
      ("defaultValue", initial), ("isInput", some (.bool x.isInput))] v

def KindsUnknown (x : Variable) : Prop := ∀ e ∈ x.initial, e.KindsUnknown

private theorem exists_encodes (x : Variable) : ∃ v, x.Encodes v := by
  obtain ⟨initial, hinitial⟩ :=
    exists_isPart Expression.Encodes x.initial fun e _ => e.exists_encodes
  exact (exists_isTagged (by simp)).imp fun v hv => ⟨initial, hinitial, hv⟩

theorem Encodes.isNode {x : Variable} {v : Json.Value} (h : x.Encodes v) (hkinds : x.KindsUnknown) :
    IsNode "VariableDeclaration" x.Fields v := by
  obtain ⟨initial, hinitial, hv⟩ := h
  exact IsTagged.isNode hv fun o ho => ⟨required_only (ho "name") rfl,
    required_only (ho "varType") rfl,
    optional_only (ho "defaultValue") hinitial fun e he _ hv => hv.written (hkinds e he),
    Or.inl (required_only (ho "isInput") rfl)⟩

end Variable

namespace Statement

mutual

/-- The value is the statement as it is written. -/
def Encodes : Statement → Json.Value → Prop
  | block body, v => ∃ items, EncodesAll body items
    ∧ IsTagged "BlockStatement" [("body", some (.array items))] v
  | branch condition consequent none, v => ∃ c s alternate, condition.Encodes c
    ∧ consequent.Encodes s ∧ (alternate = none ∨ alternate = some .null)
    ∧ IsTagged "IfStatement"
      [("condition", some c), ("consequent", some s), ("alternate", alternate)] v
  | branch condition consequent (some alternate), v => ∃ c s a, condition.Encodes c
    ∧ consequent.Encodes s ∧ alternate.Encodes a
    ∧ IsTagged "IfStatement"
      [("condition", some c), ("consequent", some s), ("alternate", some a)] v
  | forLoop init condition update body, v => ∃ i c u s, IsPart Expression.Encodes init i
    ∧ IsPart Expression.Encodes condition c ∧ IsPart Expression.Encodes update u ∧ body.Encodes s
    ∧ IsTagged "ForStatement" [("init", i), ("condition", c), ("update", u), ("body", some s)] v
  | whileLoop condition body, v => ∃ c s, condition.Encodes c ∧ body.Encodes s
    ∧ IsTagged "WhileStatement" [("condition", some c), ("body", some s)] v
  | returns value, v => ∃ e, IsPart Expression.Encodes value e
    ∧ IsTagged "ReturnStatement" [("value", e)] v
  | breaks, v => IsTagged "BreakStatement" [] v
  | continues, v => IsTagged "ContinueStatement" [] v
  | evaluate expression, v => ∃ e, expression.Encodes e
    ∧ IsTagged "ExpressionStatement" [("expression", some e)] v
  | declare declared, v => declared.Encodes v
  | unsupported kind, v => IsTagged kind [] v

/-- The values are the statements as they are written, in order. -/
def EncodesAll : List Statement → List Json.Value → Prop
  | [], items => items = []
  | s :: ss, items => ∃ item rest, s.Encodes item ∧ EncodesAll ss rest ∧ items = item :: rest

end

/-- No kind in the statement, or in an expression of it, is the tag of a supported one. -/
def KindsUnknown (s : Statement) : Prop :=
  (∀ kind ∈ s.kinds, kind ∉ tags) ∧ ∀ kind ∈ s.expressionKinds, kind ∉ Expression.tags

theorem KindsUnknown.mono {s n : Statement} (h : s.KindsUnknown) (hn : n.nodes ⊆ s.nodes) :
    n.KindsUnknown :=
  ⟨fun kind hkind => h.1 kind (kinds_mono hn hkind),
    fun kind hkind => h.2 kind (expressionKinds_mono hn hkind)⟩

theorem KindsUnknown.expression {s : Statement} (h : s.KindsUnknown) {e : Expression}
    (he : e ∈ s.expressions) : e.KindsUnknown := by
  intro kind hkind
  refine h.2 kind (List.mem_flatMap.mpr ⟨s, s.self_mem_nodes, ?_⟩)
  exact List.mem_flatMap.mpr ⟨e, he, hkind⟩

private theorem encodesAll_iff {ss : List Statement} {items : List Json.Value} :
    EncodesAll ss items ↔ List.Forall₂ Encodes ss items := by
  induction ss generalizing items with
  | nil => simp [EncodesAll]
  | cons s ss ih =>
    rw [EncodesAll, List.forall₂_cons_left_iff]
    simp only [ih]

private theorem exists_encodes (s : Statement) : ∃ v, s.Encodes v := by
  have exists_part (part : Option Expression) : ∃ entry, IsPart Expression.Encodes part entry :=
    exists_isPart _ part fun e _ => e.exists_encodes
  induction s with
  | block body ih =>
    obtain ⟨items, hitems⟩ := exists_forall₂ ih
    exact (exists_isTagged (by simp)).imp fun v hv => ⟨items, encodesAll_iff.mpr hitems, hv⟩
  | branch condition consequent alternate ihc iha =>
    obtain ⟨c, hc⟩ := condition.exists_encodes
    obtain ⟨s, hs⟩ := ihc
    cases alternate with
    | none =>
      exact (exists_isTagged (by simp)).imp fun v hv => ⟨c, s, none, hc, hs, Or.inl rfl, hv⟩
    | some alternate =>
      obtain ⟨a, ha⟩ := iha alternate rfl
      exact (exists_isTagged (by simp)).imp fun v hv => ⟨c, s, a, hc, hs, ha, hv⟩
  | forLoop init condition update body ih =>
    obtain ⟨i, hi⟩ := exists_part init
    obtain ⟨c, hc⟩ := exists_part condition
    obtain ⟨u, hu⟩ := exists_part update
    obtain ⟨s, hs⟩ := ih
    exact (exists_isTagged (by simp)).imp fun v hv => ⟨i, c, u, s, hi, hc, hu, hs, hv⟩
  | whileLoop condition body ih =>
    obtain ⟨c, hc⟩ := condition.exists_encodes
    obtain ⟨s, hs⟩ := ih
    exact (exists_isTagged (by simp)).imp fun v hv => ⟨c, s, hc, hs, hv⟩
  | returns value =>
    obtain ⟨e, he⟩ := exists_part value
    exact (exists_isTagged (by simp)).imp fun v hv => ⟨e, he, hv⟩
  | evaluate expression =>
    obtain ⟨e, he⟩ := expression.exists_encodes
    exact (exists_isTagged (by simp)).imp fun v hv => ⟨e, he, hv⟩
  | declare declared => exact declared.exists_encodes
  | breaks | continues | unsupported => exact exists_isTagged (by simp)

theorem Encodes.written {s : Statement} {v : Json.Value} (h : s.Encodes v)
    (hkinds : s.KindsUnknown) : s.Written v := by
  have written_of_mem {s : Statement} (hkinds : s.KindsUnknown) (e : Expression)
      (he : e ∈ s.expressions) (v : Json.Value) (hv : e.Encodes v) : e.Written v :=
    hv.written (hkinds.expression he)
  induction s generalizing v with
  | block body ih =>
    obtain ⟨items, hitems, hv⟩ := h
    have hwritten : AllWritten body items := allWritten_iff.mpr <|
      forall₂_flip_of_mem (encodesAll_iff.mp hitems) fun s hs v hv =>
        ih s hs hv (hkinds.mono (nodes_subset_block hs))
    exact hv.isNode fun o ho => required_only (ho "body") ⟨items, rfl, hwritten⟩
  | branch condition consequent alternate ihc iha =>
    have hconsequent := hkinds.mono (nodes_subset_consequent condition consequent alternate)
    have hcondition := written_of_mem hkinds condition (by simp [expressions])
    cases alternate with
    | none =>
      obtain ⟨c, s, alternate, hc, hs, halternate, hv⟩ := h
      exact hv.isNode fun o ho => ⟨required_only (ho "condition") (hcondition c hc),
        required_first (ho "consequent") (List.forall_mem_singleton.mpr (ho "thenBranch"))
          (ihc hs hconsequent),
        absent_first (ho "alternate") (List.forall_mem_singleton.mpr (ho "elseBranch")) halternate⟩
    | some alternate =>
      obtain ⟨c, s, a, hc, hs, ha, hv⟩ := h
      have halternate := hkinds.mono (nodes_subset_alternate condition consequent alternate)
      exact hv.isNode fun o ho => ⟨required_only (ho "condition") (hcondition c hc),
        required_first (ho "consequent") (List.forall_mem_singleton.mpr (ho "thenBranch"))
          (ihc hs hconsequent),
        required_first (ho "alternate") (List.forall_mem_singleton.mpr (ho "elseBranch"))
          (iha alternate rfl ha halternate)⟩
  | forLoop init condition update body ih =>
    obtain ⟨i, c, u, s, hi, hc, hu, hs, hv⟩ := h
    have hbody : body.KindsUnknown := hkinds.mono (by simp [nodes])
    have hparts := written_of_mem hkinds
    simp only [expressions, List.mem_append, Option.mem_toList] at hparts
    exact hv.isNode fun o ho =>
      ⟨optional_only (ho "init") hi fun e he => hparts e (Or.inl (Or.inl he)),
        optional_only (ho "condition") hc fun e he => hparts e (Or.inl (Or.inr he)),
        optional_first (ho "update") (List.forall_mem_singleton.mpr (ho "increment")) hu
          fun e he => hparts e (Or.inr he),
        required_only (ho "body") (ih hs hbody)⟩
  | whileLoop condition body ih =>
    obtain ⟨c, s, hc, hs, hv⟩ := h
    have hbody : body.KindsUnknown := hkinds.mono (by simp [nodes])
    have hcondition := written_of_mem hkinds condition (by simp [expressions])
    exact hv.isNode fun o ho => ⟨required_only (ho "condition") (hcondition c hc),
      required_only (ho "body") (ih hs hbody)⟩
  | returns value =>
    obtain ⟨e, he, hv⟩ := h
    exact hv.isNode fun o ho =>
      optional_first (ho "value") (List.forall_mem_singleton.mpr (ho "argument")) he
        fun e he => written_of_mem hkinds e (by simpa [expressions] using he)
  | breaks | continues => exact IsTagged.isNode h fun _ _ => trivial
  | evaluate expression =>
    obtain ⟨e, he, hv⟩ := h
    have hexpression := written_of_mem hkinds expression (by simp [expressions])
    exact hv.isNode fun o ho => required_only (ho "expression") (hexpression e he)
  | declare declared =>
    refine Variable.Encodes.isNode h fun e he => hkinds.expression ?_
    simpa [expressions] using he
  | unsupported kind =>
    exact IsTagged.isNode h fun _ _ => hkinds.1 kind (by simp [kinds, nodes, kind?])

end Statement

namespace Parameter

/-- The value is the parameter as it is written, where one without a type may be its name alone. -/
def Encodes (p : Parameter) (v : Json.Value) : Prop :=
  (v = .text p.name ∧ p.type = none) ∨
    ∃ type, IsPart IsText p.type type
      ∧ IsObject [("name", some (.text p.name)), ("paramType", type)] v

private theorem exists_encodes (p : Parameter) : ∃ v, p.Encodes v := by
  obtain ⟨type, htype⟩ := exists_isPart IsText p.type fun s _ => ⟨.text s, rfl⟩
  exact ⟨_, Or.inr ⟨type, htype, isObject_members _ (by simp)⟩⟩

theorem Encodes.written {p : Parameter} {v : Json.Value} (h : p.Encodes v) : p.Written v := by
  rcases h with h | ⟨type, htype, o, rfl, ho⟩
  · exact Or.inl h
  · exact Or.inr ⟨o, rfl, required_only (ho "name") rfl,
      optional_only (ho "paramType") htype fun _ _ _ hv => hv⟩

end Parameter

namespace Function

/-- The value is the function as it is written. -/
def Encodes (f : Function) (v : Json.Value) : Prop :=
  ∃ parameters body type, List.Forall₂ Parameter.Encodes f.parameters parameters
    ∧ f.body.Encodes body ∧ IsPart IsText f.returnType type
    ∧ IsTagged "FunctionDeclaration" [("name", some (.text f.name)),
      ("parameters", some (.array parameters)), ("body", some body), ("returnType", type)] v

private theorem exists_encodes (f : Function) : ∃ v, f.Encodes v := by
  obtain ⟨parameters, hparameters⟩ :=
    exists_forall₂ fun p (_ : p ∈ f.parameters) => p.exists_encodes
  obtain ⟨body, hbody⟩ := f.body.exists_encodes
  obtain ⟨type, htype⟩ := exists_isPart IsText f.returnType fun s _ => ⟨.text s, rfl⟩
  exact (exists_isTagged (by simp)).imp fun v hv =>
    ⟨parameters, body, type, hparameters, hbody, htype, hv⟩

theorem Encodes.isNode {f : Function} {v : Json.Value} (h : f.Encodes v)
    (hkinds : f.body.KindsUnknown) : IsNode "FunctionDeclaration" f.Fields v := by
  obtain ⟨parameters, body, type, hparameters, hbody, htype, hv⟩ := h
  have hwritten : List.Forall₂ (fun item p => Parameter.Written p item) parameters f.parameters :=
    forall₂_flip_of_mem hparameters fun _ _ _ hp => hp.written
  exact hv.isNode fun o ho => ⟨required_only (ho "name") rfl,
    Or.inl (required_only (ho "parameters") ⟨parameters, rfl, hwritten⟩),
    required_only (ho "body") (hbody.written hkinds),
    optional_only (ho "returnType") htype fun _ _ _ hv => hv⟩

end Function

namespace Declaration

/-- The value is the declaration as it is written. -/
def Encodes : Declaration → Json.Value → Prop
  | .variable declared, v => declared.Encodes v
  | .function declared, v => declared.Encodes v
  | .unsupported kind, v => IsTagged kind [] v

def KindsUnknown : Declaration → Prop
  | .variable declared => declared.KindsUnknown
  | .function declared => declared.body.KindsUnknown
  | .unsupported kind => kind ∉ tags

private theorem exists_encodes (d : Declaration) : ∃ v, d.Encodes v := by
  cases d with
  | «variable» declared => exact declared.exists_encodes
  | function declared => exact declared.exists_encodes
  | unsupported kind => exact exists_isTagged (by simp)

theorem Encodes.written {d : Declaration} {v : Json.Value} (h : d.Encodes v)
    (hkinds : d.KindsUnknown) : d.Written v := by
  cases d with
  | «variable» declared => exact Variable.Encodes.isNode h hkinds
  | function declared => exact Function.Encodes.isNode h hkinds
  | unsupported kind => exact IsTagged.isNode h fun _ _ => hkinds

end Declaration

namespace Wire

/-- Every tree can be written, and whatever way it is written, reading gives it back. -/
theorem reading_undoes_writing :
    (∀ e : Expression, e.KindsUnknown →
      (∃ v, e.Encodes v) ∧ ∀ v, e.Encodes v → Expression.ofValue v = .ok e)
    ∧ (∀ s : Statement, s.KindsUnknown →
      (∃ v, s.Encodes v) ∧ ∀ v, s.Encodes v → Statement.ofValue v = .ok s)
    ∧ (∀ x : Variable, x.KindsUnknown → (∃ v, x.Encodes v)
      ∧ ∀ v, x.Encodes v → ∃ o, v = .object o ∧ Variable.record.ofMembers o = .ok x)
    ∧ (∀ f : Function, f.body.KindsUnknown → (∃ v, f.Encodes v)
      ∧ ∀ v, f.Encodes v → ∃ o, v = .object o ∧ Function.record.ofMembers o = .ok f)
    ∧ ∀ d : Declaration, d.KindsUnknown →
      (∃ v, d.Encodes v) ∧ ∀ v, d.Encodes v → Declaration.ofValue v = .ok d := by
  refine ⟨fun e hkinds => ⟨e.exists_encodes, fun v hv => ?_⟩,
    fun s hkinds => ⟨s.exists_encodes, fun v hv => ?_⟩,
    fun x hkinds => ⟨x.exists_encodes, fun v hv => ?_⟩,
    fun f hkinds => ⟨f.exists_encodes, fun v hv => ?_⟩,
    fun d hkinds => ⟨d.exists_encodes, fun v hv => ?_⟩⟩
  · exact Expression.ofValue_iff.mpr (hv.written hkinds)
  · exact Statement.ofValue_iff.mpr (hv.written hkinds)
  · obtain ⟨o, rfl, -, hfields⟩ := hv.isNode hkinds
    exact ⟨o, rfl, Variable.ofMembers_iff.mpr hfields⟩
  · obtain ⟨o, rfl, -, hfields⟩ := hv.isNode hkinds
    exact ⟨o, rfl, Function.ofMembers_iff.mpr hfields⟩
  · exact Declaration.ofValue_iff.mpr (hv.written hkinds)

/-- A loop without a first step and without an update, of which one is null and the other left out. -/
theorem ofValue_loop :
    Statement.ofValue (.object [("type", .text "ForStatement"), ("init", .null),
        ("condition", .object [("type", .text "BooleanLiteral"), ("value", .bool true)]),
        ("body", .object [("type", .text "SwitchStatement")])])
      = .ok (.forLoop none (some (.boolean true)) none (.unsupported "SwitchStatement")) := by
  have hkinds : (Statement.forLoop none (some (.boolean true)) none
      (.unsupported "SwitchStatement")).KindsUnknown := ⟨by decide, by decide⟩
  refine (reading_undoes_writing.2.1 _ hkinds).2 _ ?_
  exact ⟨some .null, some _, none, _, Or.inr rfl,
    ⟨_, isObject_members [("type", some (.text "BooleanLiteral")),
      ("value", some (.bool true))] (by decide), rfl⟩, Or.inl rfl,
    isObject_members [("type", some (.text "SwitchStatement"))] (by decide),
    isObject_members [("type", some (.text "ForStatement")), ("init", some .null),
      ("condition", some (.object [("type", .text "BooleanLiteral"), ("value", .bool true)])),
      ("update", none), ("body", some (.object [("type", .text "SwitchStatement")]))] (by decide)⟩

end Wire

end Advisor
