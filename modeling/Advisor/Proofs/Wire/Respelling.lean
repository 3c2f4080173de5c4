import Advisor.Proofs.Wire.Demand

/-!
# Values that are read alike

A node may be written in several ways: under another name of a field, with or without a field that
says nothing or the usual, with more fields than the node has. One step between two writings, at any
node inside them, changes what one field says to what is alike, and so makes no difference to what
any tree asks of it. All writings that such steps lead to are read as the same tree.
-/

namespace Advisor

namespace Wire

/-- A parameter without a type, as its name alone or as an object. -/
inductive Untyped (name : String) : Json.Value → Prop
  | bare : Untyped name (.text name)
  | object {o} (hname : Json.latest "name" o = some (.text name))
      (htype : Json.latest "paramType" o = none ∨ Json.latest "paramType" o = some .null) :
      Untyped name (.object o)

/-- What the field says in two writings, apart from nodes in it. -/
inductive Field.Varies (field : Field) : Option Json.Value → Option Json.Value → Prop
  | respelled {given} : Varies field given given
  | null (h : field.absence = .nothing) : Varies field (some .null) none
  | usual {v} (h : field.absence = .usual v) : Varies field (some v) none
  | parameter {name p q} (before after) (h : field.content = .parameters) (hp : Untyped name p)
      (hq : Untyped name q) :
      Varies field (some (.array (before ++ p :: after))) (some (.array (before ++ q :: after)))

/-- Nodes with the same tag that agree under all other names. -/
structure AgreeBut (names : List String) (tag : String) (o o' : Object) : Prop where
  tagged : Json.latest "type" o = some (.text tag)
  tagged' : Json.latest "type" o' = some (.text tag)
  others : ∀ name ∉ names, Json.latest name o = Json.latest name o'

/-- One step from a writing of a node to another, in the node itself or in one inside it. -/
inductive Respells : Kind → Json.Value → Json.Value → Prop
  | field {kind tag fields o o'} (field given given') (hfields : kind.fields? tag = some fields)
      (hfield : field ∈ fields) (hothers : AgreeBut field.names tag o o')
      (hstated : field.Says o given) (hstated' : field.Says o' given')
      (h : field.Varies given given') : Respells kind (.object o) (.object o')
  /-- A name that is not that of a field may have any value or none. -/
  | surplus {kind tag fields name o o'} (hfields : kind.fields? tag = some fields)
      (hname : ∀ field ∈ fields, name ∉ field.names) (hothers : AgreeBut [name] tag o o') :
      Respells kind (.object o) (.object o')
  /-- A node with an unknown tag may have anything in it. -/
  | unknown {kind tag o o'} (hfields : kind.fields? tag = none)
      (htag : Json.latest "type" o = some (.text tag))
      (htag' : Json.latest "type" o' = some (.text tag)) : Respells kind (.object o) (.object o')
  | node {kind tag fields o o' inner v v'} (field name) (hfields : kind.fields? tag = some fields)
      (hfield : field ∈ fields) (hname : name ∈ field.names) (hothers : AgreeBut [name] tag o o')
      (hcontent : field.content = .node inner) (hv : Json.latest name o = some v)
      (hv' : Json.latest name o' = some v') (h : Respells inner v v') :
      Respells kind (.object o) (.object o')
  | item {kind tag fields o o' inner v v'} (field name before after)
      (hfields : kind.fields? tag = some fields) (hfield : field ∈ fields)
      (hname : name ∈ field.names) (hothers : AgreeBut [name] tag o o')
      (hcontent : field.content = .nodes inner)
      (hitems : Json.latest name o = some (.array (before ++ v :: after)))
      (hitems' : Json.latest name o' = some (.array (before ++ v' :: after)))
      (h : Respells inner v v') : Respells kind (.object o) (.object o')

theorem Respells.objects {kind : Kind} {v v' : Json.Value} (h : Respells kind v v') :
    (∃ o, v = .object o) ∧ ∃ o', v' = .object o' := by
  cases h <;> exact ⟨⟨_, rfl⟩, _, rfl⟩

private theorem Untyped.written_iff {name : String} {v : Json.Value} (h : Untyped name v)
    (p : Parameter) :
    p.Written v ↔ p = ⟨name, none⟩ := by
  obtain ⟨pname, type⟩ := p
  cases h with
  | bare => simp [Parameter.Written, eq_comm]
  | @object o hname htype =>
    have hlacks : Optional o ["paramType"] IsText type ↔ type = none := by
      cases type with
      | none => simpa [Optional] using htype
      | some type => rcases htype with htype | htype <;> simp [Optional, Required, IsText, htype]
    simp [Parameter.Written, Required, IsText, hname, hlacks, eq_comm]

theorem Field.Varies.alike {field : Field} {given given' : Option Json.Value}
    (h : field.Varies given given') : field.Alike given given' := by
  cases h with
  | respelled => exact .refl
  | null h => exact .null h
  | usual h => exact .usual h
  | parameter before after h hp hq =>
    refine .content (h ▸ .parameters fun x => ?_)
    rw [hp.written_iff, hq.written_iff]

private theorem isNode_fields_congr {tag known : String} {fields : Object → Prop} {o o' : Object}
    (htag : Json.latest "type" o = some (.text known))
    (htag' : Json.latest "type" o' = some (.text known))
    (h : tag = known → (fields o ↔ fields o')) :
    IsNode tag fields (.object o) ↔ IsNode tag fields (.object o') := by
  by_cases heq : tag = known
  · simp [IsNode, htag, htag', heq, h heq]
  · have hne : known ≠ tag := Ne.symm heq
    simp [IsNode, htag, htag', hne]

section

variable {kind : Kind} {written : Json.Value → Prop} {tag : String} {fields : List Field}
  {o o' : Object}

theorem Kind.Asks.congr (h : kind.Asks written) (hfields : kind.fields? tag = some fields)
    (htag : Json.latest "type" o = some (.text tag))
    (htag' : Json.latest "type" o' = some (.text tag))
    (hmet : ∀ p : Demand, p.field ∈ fields → (p.Met o ↔ p.Met o')) :
    written (.object o) ↔ written (.object o') := by
  cases h with
  | nothing h =>
    rw [h, h]
    exact isNode_fields_congr htag htag' fun _ => Iff.rfl
  | @demands own demands hdemands h =>
    rw [h, h]
    refine isNode_fields_congr htag htag' fun heq => ?_
    subst heq
    obtain rfl := Option.some.inj (hdemands.symm.trans hfields)
    exact forall₂_congr fun p hp => hmet p (List.mem_map_of_mem hp)

private theorem Kind.Asks.congr_unknown (h : kind.Asks written) (hfields : kind.fields? tag = none)
    (htag : Json.latest "type" o = some (.text tag))
    (htag' : Json.latest "type" o' = some (.text tag)) :
    written (.object o) ↔ written (.object o') := by
  cases h with
  | nothing h =>
    rw [h, h]
    exact isNode_fields_congr htag htag' fun _ => Iff.rfl
  | demands demands hdemands h =>
    rw [h, h]
    refine isNode_fields_congr htag htag' fun heq => ?_
    rw [heq, hfields] at hdemands
    cases hdemands

private theorem Demand.met_congr {p : Demand}
    (h : ∀ name ∈ p.field.names, Json.latest name o = Json.latest name o') : p.Met o ↔ p.Met o' :=
  exists_congr fun _ => and_congr_left fun _ => Field.says_congr h

variable (t : kind.Tree)

private theorem written_congr_field {field : Field} (hfields : kind.fields? tag = some fields)
    (hfield : field ∈ fields) (hothers : AgreeBut field.names tag o o')
    (hmet : ∀ p : Demand, p.field = field → (p.Met o ↔ p.Met o')) :
    kind.Written t (.object o) ↔ kind.Written t (.object o') := by
  refine (Kind.asks t).congr hfields hothers.tagged hothers.tagged' fun p hp => ?_
  by_cases heq : p.field = field
  · exact hmet p heq
  · refine Demand.met_congr fun name hname => hothers.others name ?_
    exact disjoint_names hfields hp hfield heq hname

private theorem written_congr {field : Field} (given given' : Option Json.Value)
    (hfields : kind.fields? tag = some fields) (hfield : field ∈ fields)
    (hothers : AgreeBut field.names tag o o') (hstated : field.Says o given)
    (hstated' : field.Says o' given') (h : field.Alike given given') :
    kind.Written t (.object o) ↔ kind.Written t (.object o') := by
  refine written_congr_field t hfields hfield hothers fun p hp => ?_
  subst hp
  rw [Demand.met_iff hstated, Demand.met_iff hstated', p.asks_congr h]

/-- What stands under a name may be changed to what is alike, even if the field is given twice. -/
theorem written_congr_latest {field : Field} {name : String} {v v' : Json.Value}
    (hfields : kind.fields? tag = some fields) (hfield : field ∈ fields)
    (hname : name ∈ field.names) (hothers : AgreeBut [name] tag o o')
    (hv : Json.latest name o = some v) (hv' : Json.latest name o' = some v')
    (h : field.content.Alike v v') :
    kind.Written t (.object o) ↔ kind.Written t (.object o') := by
  have hagree : ∀ other, other ≠ name → Json.latest other o = Json.latest other o' :=
    fun other hne => hothers.others other (by simpa using hne)
  have hfieldOthers : AgreeBut field.names tag o o' :=
    ⟨hothers.tagged, hothers.tagged', fun other hother =>
      hagree other fun heq => hother (heq ▸ hname)⟩
  by_cases halone : ∀ other ∈ field.names, other ≠ name → Json.latest other o = none
  · have halone' : ∀ other ∈ field.names, other ≠ name → Json.latest other o' = none :=
      fun other hother hne => hagree other hne ▸ halone other hother hne
    exact written_congr t (some v) (some v') hfields hfield hfieldOthers
      ⟨name, hname, hv, halone⟩ ⟨name, hname, hv', halone'⟩ (.content h)
  · refine written_congr_field t hfields hfield hfieldOthers fun p hp => ?_
    subst hp
    have hdoubled : ¬ p.Met o := fun ⟨_, hstated, _⟩ => halone (hstated.alone hname hv)
    have hdoubled' : ¬ p.Met o' := fun ⟨_, hstated, _⟩ => halone fun other hother hne =>
      (hagree other hne).trans (hstated.alone hname hv' other hother hne)
    exact iff_of_false hdoubled hdoubled'

private theorem written_congr_surplus {name : String} (hfields : kind.fields? tag = some fields)
    (hname : ∀ field ∈ fields, name ∉ field.names) (hothers : AgreeBut [name] tag o o') :
    kind.Written t (.object o) ↔ kind.Written t (.object o') := by
  refine (Kind.asks t).congr hfields hothers.tagged hothers.tagged' fun p hp => ?_
  refine Demand.met_congr fun other hother => hothers.others other fun heq => ?_
  exact hname p.field hp (List.mem_singleton.mp heq ▸ hother)

end

/-- One step makes no difference to what is read. -/
theorem Respells.written_iff {kind : Kind} {v v' : Json.Value} (h : Respells kind v v') :
    ∀ t, kind.Written t v ↔ kind.Written t v' := by
  induction h with
  | field field given given' hfields hfield hothers hstated hstated' h =>
    exact fun t => written_congr t given given' hfields hfield hothers hstated hstated' h.alike
  | surplus hfields hname hothers => exact fun t => written_congr_surplus t hfields hname hothers
  | unknown hfields htag htag' => exact fun t => (Kind.asks t).congr_unknown hfields htag htag'
  | node field name hfields hfield hname hothers hcontent hv hv' h ih =>
    obtain ⟨⟨_, rfl⟩, _, rfl⟩ := h.objects
    refine fun t => written_congr_latest t hfields hfield hname hothers hv hv' ?_
    rw [hcontent]
    exact .node ih
  | item field name before after hfields hfield hname hothers hcontent hitems hitems' h ih =>
    refine fun t => written_congr_latest t hfields hfield hname hothers hitems hitems' ?_
    rw [hcontent]
    exact .nodes ih

/-- Whatever is read from a value is read from every other writing of it. -/
theorem ofValue_respelled {kind : Kind} {v v' : Json.Value}
    (h : Relation.EqvGen (Respells kind) v v') (t : kind.Tree) :
    kind.ofValue v = .ok t ↔ kind.ofValue v' = .ok t := by
  simp only [Kind.ofValue_iff]
  induction h with
  | rel v v' h => exact h.written_iff t
  | refl v => exact Iff.rfl
  | symm v v' _ ih => exact ih.symm
  | trans v v' v'' _ _ ih ih' => exact ih.trans ih'

def identity (name : String) : Json.Value :=
  .object [("type", .text "Identifier"), ("name", .text name)]

def negation (fields : Object) : Json.Value :=
  .object ([("type", .text "UnaryExpression"), ("operator", .text "-")] ++ fields)

def returning (name : String) (value : Json.Value) : Json.Value :=
  .object [("type", .text "ReturnStatement"), (name, value)]

/-- A function of one parameter. -/
def unaryFunction (parameter body : Json.Value) : Json.Value :=
  .object [("type", .text "FunctionDeclaration"), ("name", .text "negate"),
    ("parameters", .array [parameter]), ("body", body)]

theorem negate_respelled :
    Kind.declaration.ofValue (unaryFunction (.object [("name", .text "x")])
        (returning "value" (negation [("prefix", .bool true), ("argument", identity "x")])))
      = .ok (.function ⟨"negate", [⟨"x", none⟩],
        .returns (some (.unary "-" true (.identifier "x"))), none⟩) := by
  have hparameter (body : Json.Value) : Respells .declaration (unaryFunction (.text "x") body)
      (unaryFunction (.object [("name", .text "x")]) body) := by
    refine .field ⟨["parameters"], .parameters, .usual (.array [])⟩ (some _) (some _) rfl
      (by simp [functionFields]) ⟨rfl, rfl, fun name hname => ?_⟩ (gives_singleton.mpr rfl)
      (gives_singleton.mpr rfl) (.parameter [] [] rfl .bare (.object rfl (.inl rfl)))
    grind [Json.latest]
  have hreturn (value : Json.Value) :
      Respells .statement (returning "argument" value) (returning "value" value) := by
    refine .field ⟨["value", "argument"], .node .expression, .nothing⟩ (some value) (some value) rfl
      (by simp) ⟨rfl, rfl, fun name hname => ?_⟩ ?_ ?_ .respelled
    · grind [Json.latest]
    · exact (gives_pair (by decide)).mpr (.inr ⟨rfl, rfl⟩)
    · exact (gives_pair (by decide)).mpr (.inl ⟨rfl, rfl⟩)
  have hoperand : Respells .expression (negation [("operand", identity "x")])
      (negation [("argument", identity "x")]) := by
    refine .field ⟨["operand", "argument"], .node .expression, .flaw⟩ (some (identity "x"))
      (some (identity "x")) rfl (by simp) ⟨rfl, rfl, fun name hname => ?_⟩ ?_ ?_ .respelled
    · grind [Json.latest]
    · exact (gives_pair (by decide)).mpr (.inl ⟨rfl, rfl⟩)
    · exact (gives_pair (by decide)).mpr (.inr ⟨rfl, rfl⟩)
  have hprefix : Respells .expression
      (negation [("prefix", .bool true), ("argument", identity "x")])
      (negation [("argument", identity "x")]) := by
    refine .field ⟨["prefix"], .flag, .usual (.bool true)⟩ (some (.bool true)) none rfl (by simp)
      ⟨rfl, rfl, fun name hname => ?_⟩ (gives_singleton.mpr rfl) (lacks_singleton.mpr rfl)
      (.usual rfl)
    grind [Json.latest]
  have hvalue {e e' : Json.Value} (h : Respells .expression e e') :
      Respells .statement (returning "value" e) (returning "value" e') := by
    refine .node ⟨["value", "argument"], .node .expression, .nothing⟩ "value" rfl (by simp)
      (by simp) ⟨rfl, rfl, fun name hname => ?_⟩ rfl rfl rfl h
    grind [Json.latest]
  have hbody {body body' : Json.Value} (h : Respells .statement body body')
      (parameter : Json.Value) : Respells .declaration (unaryFunction parameter body)
        (unaryFunction parameter body') := by
    refine .node ⟨["body"], .node .statement, .flaw⟩ "body" rfl
      (by simp [functionFields]) (by simp) ⟨rfl, rfl, fun name hname => ?_⟩ rfl rfl rfl h
    grind [Json.latest]
  have hread : Kind.declaration.ofValue (unaryFunction (.text "x")
      (returning "argument" (negation [("operand", identity "x")])))
      = .ok (.function ⟨"negate", [⟨"x", none⟩],
        .returns (some (.unary "-" true (.identifier "x"))), none⟩) := rfl
  refine (ofValue_respelled ?_ _).mp hread
  exact .trans _ _ _ (.rel _ _ (hparameter _)) <| .trans _ _ _ (.rel _ _ (hbody (hreturn _) _)) <|
    .trans _ _ _ (.rel _ _ (hbody (hvalue hoperand) _)) <|
      .symm _ _ (.rel _ _ (hbody (hvalue hprefix) _))

end Wire

end Advisor
