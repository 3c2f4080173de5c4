import Advisor.Proofs.Wire.Expression

/-!
# Variables and statements are read as the grammar has them
-/

namespace Advisor

open Wire

namespace Variable

theorem finish_eq_ok {d : Draft} {x : Variable} : d.finish = .ok x ↔
    d.name = some x.name ∧ d.type = some x.type ∧ d.initial.join = x.initial
      ∧ d.isInput.getD false = x.isInput := by
  obtain ⟨name, type, initial, isInput⟩ := d
  obtain ⟨name', type', initial', isInput'⟩ := x
  cases name <;> cases type <;> simp [Draft.finish, pure, Except.pure, throw, throwThe, MonadExceptOf.throw]

private theorem null_ne_ok (e : Expression) : Expression.ofValue .null ≠ .ok e := by
  simp [Expression.ofValue, Reading.ofValue]

theorem ofMembers_iff {o : Object} {x : Variable} : record.ofMembers o = .ok x ↔ x.Fields o := by
  have hinitial := @putFields_cons _ _ _ record o (record.finish · = .ok x) "defaultValue"
    ["isInput", "name", "varType"] ⟨none, none, none, none⟩ (nullable Expression.ofValue)
    (fun part => ⟨none, none, part, none⟩) (fun _ => rfl) rfl
  have hinput (initial) := @putFields_cons _ _ _ record o (record.finish · = .ok x) "isInput"
    ["name", "varType"] ⟨none, none, initial, none⟩ flag
    (fun part => ⟨none, none, initial, part⟩) (fun _ => rfl) rfl
  have hname (initial isInput) := @putFields_cons _ _ _ record o (record.finish · = .ok x) "name"
    ["varType"] ⟨none, none, initial, isInput⟩ Wire.text
    (fun part => ⟨part, none, initial, isInput⟩) (fun _ => rfl) rfl
  have htype (name initial isInput) := @putFields_cons _ _ _ record o (record.finish · = .ok x)
    "varType" [] ⟨name, none, initial, isInput⟩ Wire.text
    (fun part => ⟨name, part, initial, isInput⟩) (fun _ => rfl) rfl
  have hfinish (d : Draft) : record.finish d = .ok x ↔ _ := finish_eq_ok
  rw [ofMembers_eq_ok, Fields, ← reads_required fun _ => text_eq_ok,
    ← reads_required fun _ => text_eq_ok,
    ← reads_optional null_ne_ok fun _ _ _ => Expression.ofValue_iff,
    ← reads_defaulted fun _ => flag_eq_ok]
  refine hinitial.trans ?_
  simp only [hinput, hname, htype, putFields_nil]
  simp only [hfinish]
  constructor
  · rintro ⟨initial, hinitial, isInput, hinput, name, hname, type, htype, rfl, rfl, hjoin, hget⟩
    exact ⟨hname, htype, ⟨initial, hinitial, hjoin⟩, isInput, hinput, hget⟩
  · rintro ⟨hname, htype, ⟨initial, hinitial, hjoin⟩, isInput, hinput, hget⟩
    exact ⟨initial, hinitial, isInput, hinput, _, hname, _, htype, rfl, rfl, hjoin, hget⟩

end Variable

namespace Statement

/-- The tag of a statement that is supported. -/
def tag? : Statement → Option Tag
  | block _ => some .blockStatement
  | branch _ _ _ => some .ifStatement
  | forLoop _ _ _ _ => some .forStatement
  | whileLoop _ _ => some .whileStatement
  | returns _ => some .returnStatement
  | breaks => some .breakStatement
  | continues => some .continueStatement
  | evaluate _ => some .expressionStatement
  | declare _ => some .variableDeclaration
  | unsupported _ => none

theorem ofName?_eq_some (name : String) (tag : Tag) :
    Tag.ofName? name = some tag ↔ tag.name = name :=
  find?_tag_eq_some fun t => by cases t <;> rfl

theorem ofName?_eq_none {name : String} : Tag.ofName? name = none ↔ name ∉ tags :=
  find?_tag_eq_none

theorem tag?_of_ofFields {members : Members Statement} {tag : Tag} {s : Statement}
    (h : ofFields members tag = .ok s) : s.tag? = some tag := by
  cases tag <;>
    simp only [ofFields, bind_eq_ok, pure_eq_ok] at h <;> grind [tag?]

/-- The readings of the members of an object. -/
abbrev readings (o : Object) : Members Statement := Reading.ofMembers ofMembers o

@[simp] theorem node_ofValue (v : Json.Value) :
    (Reading.ofValue ofMembers v).node = ofValue v := rfl

theorem ofValue_eq_ok (v : Json.Value) (s : Statement) : ofValue v = .ok s ↔
    ∃ tag, IsNode tag (fun o => (∃ t, Tag.ofName? tag = some t ∧ ofFields (readings o) t = .ok s) ∨
      Tag.ofName? tag = none ∧ unsupported tag = s) v := by
  cases v with
  | object o =>
    rw [ofValue, Reading.ofValue]
    simp only [ofMembers, Members.values_ofMembers, bind_eq_ok, tagOf_eq_ok, IsNode,
      Json.Value.object.injEq, exists_eq_left']
    refine exists_congr fun tag => and_congr_right fun _ => ?_
    cases Tag.ofName? tag <;> simp
  | _ => simp [ofValue, Reading.ofValue, IsNode]

theorem ofValue_known {v : Json.Value} {s : Statement} {tag : Tag} (hs : s.tag? = some tag) :
    ofValue v = .ok s ↔ IsNode tag.name (fun o => ofFields (readings o) tag = .ok s) v :=
  read_known_iff ofValue_eq_ok (fun _ _ _ => tag?_of_ofFields) (fun _ => rfl) ofName?_eq_some hs

theorem ofValue_unsupported {v : Json.Value} {kind : String} :
    ofValue v = .ok (.unsupported kind) ↔ IsNode kind (fun _ => kind ∉ tags) v := by
  rw [read_other_iff ofValue_eq_ok (fun _ _ _ => tag?_of_ofFields) (fun _ => rfl)
    fun _ _ => unsupported.inj]
  exact isNode_congr fun _ => ofName?_eq_none

private theorem null_ne_ok (s : Statement) : ofValue .null ≠ .ok s := by
  simp [ofValue, Reading.ofValue]

@[simp] theorem expressionOf_ofValue (v : Json.Value) :
    expressionOf (Reading.ofValue ofMembers v) = Expression.ofValue v := by
  rw [expressionOf, Reading.value_ofValue]

@[simp] theorem expressionOf?_ofValue (v : Json.Value) :
    expressionOf? (Reading.ofValue ofMembers v) = nullable Expression.ofValue v := by
  rw [expressionOf?, Reading.value_ofValue]

@[simp] theorem node?_ofValue (v : Json.Value) :
    (Reading.ofValue ofMembers v).node? = nullable ofValue v := by
  cases v <;> rfl

section

variable {o : Object} {name other : String} (h : name ≠ other) (field : String)

include h

theorem reads_node {part : Option Statement} :
    (∃ earlier, Reads o [name] ofValue earlier
        ∧ (readings o).respelled? other field earlier Reading.node = .ok part) ↔
      Reads o [name, other] ofValue part :=
  reads_respelled h

private theorem reads_node? {part : Option (Option Statement)} :
    (∃ earlier, Reads o [name] (nullable ofValue) earlier
        ∧ (readings o).respelled? other field earlier Reading.node? = .ok part) ↔
      Reads o [name, other] (nullable ofValue) part := by
  have hread : nullable ofValue = fun v => (Reading.ofValue ofMembers v).node? :=
    funext fun v => (node?_ofValue v).symm
  rw [hread]
  exact reads_respelled h

private theorem reads_expression? {part : Option (Option Expression)} :
    (∃ earlier, Reads o [name] (nullable Expression.ofValue) earlier
        ∧ (readings o).respelled? other field earlier expressionOf? = .ok part) ↔
      Reads o [name, other] (nullable Expression.ofValue) part := by
  have hread : nullable Expression.ofValue
      = fun v => expressionOf? (Reading.ofValue ofMembers v) :=
    funext fun v => (expressionOf?_ofValue v).symm
  rw [hread]
  exact reads_respelled h

end

theorem ofValue_iff {v : Json.Value} {s : Statement} : ofValue v = .ok s ↔ s.Written v := by
  have reads_expression {o : Object} {names : List String} {e : Expression} :
      Reads o names Expression.ofValue (some e) ↔ Required o names e.Written :=
    reads_required fun _ => Expression.ofValue_iff
  induction s generalizing v with
  | block body ih =>
    rw [ofValue_known rfl, Written]
    refine isNode_congr fun o => ?_
    have hnodes (v : Json.Value) : (Reading.ofValue ofMembers v).nodes = .ok body ↔
        ∃ items, v = .array items ∧ AllWritten body items := by
      simp only [Reading.nodes_ofValue, Reading.nodesOf_eq_ok, allWritten_iff, node_ofValue,
        forall₂_congr_of_mem fun s hs v => ih s hs (v := v)]
    simp [ofFields, reads_required hnodes]
  | branch condition consequent alternate ihc iha =>
    rw [ofValue_known rfl, written_branch]
    refine isNode_congr fun o => ?_
    have hconsequent : "consequent" ≠ "thenBranch" := by decide
    have halternate : "alternate" ≠ "elseBranch" := by decide
    rw [← reads_required fun _ => ihc, ← reads_node hconsequent "consequent",
      ← reads_optional null_ne_ok fun s hs _ => iha s hs]
    simp only [← reads_node? halternate "alternate"]
    simp only [ofFields, bind_pure_comp, bind_eq_ok, field?_eq_ok, reads_ofMembers, node?_ofValue,
      expressionOf_ofValue, node_ofValue, required_eq_ok, map_eq_ok, branch.injEq, ↓existsAndEq,
      true_and, reads_expression, exists_and_left]
    constructor
    · rintro ⟨a, ha, hcondition, c, hc, b, hb, hconsequent, hjoin⟩
      exact ⟨hcondition, ⟨c, hc, hconsequent⟩, b, ⟨a, ha, hb⟩, hjoin⟩
    · rintro ⟨hcondition, ⟨c, hc, hconsequent⟩, b, ⟨a, ha, hb⟩, hjoin⟩
      exact ⟨a, ha, hcondition, c, hc, b, hb, hconsequent, hjoin⟩
  | forLoop init condition update body ih =>
    rw [ofValue_known rfl, Written]
    refine isNode_congr fun o => ?_
    have hnames : "increment" ≠ "update" := by decide
    have hclause {names : List String} {clause : Option Expression} :
        (∃ found, Reads o names (nullable Expression.ofValue) found ∧ found.join = clause) ↔
          Optional o names Expression.Written clause :=
      reads_optional Variable.null_ne_ok fun _ _ _ => Expression.ofValue_iff
    simp only [← hclause, reads_swap "update", ← reads_expression? hnames "update"]
    simp only [ofFields, bind_pure_comp, bind_eq_ok, field?_eq_ok, reads_ofMembers, node_ofValue,
      expressionOf?_ofValue, map_eq_ok, required_eq_ok, forLoop.injEq, ↓existsAndEq, and_true,
      reads_required fun _ => ih, true_and, exists_and_left]
    constructor
    · rintro ⟨hbody, c, hc, e, he, i, hi, u, hu, hinit, hcondition, hupdate⟩
      exact ⟨⟨i, hi, hinit⟩, ⟨c, hc, hcondition⟩, ⟨u, ⟨e, he, hu⟩, hupdate⟩, hbody⟩
    · rintro ⟨⟨i, hi, hinit⟩, ⟨c, hc, hcondition⟩, ⟨u, ⟨e, he, hu⟩, hupdate⟩, hbody⟩
      exact ⟨hbody, c, hc, e, he, i, hi, u, hu, hinit, hcondition, hupdate⟩
  | whileLoop condition body ih =>
    rw [ofValue_known rfl, Written]
    refine isNode_congr fun o => ?_
    simp [ofFields, reads_expression, reads_required fun _ => ih, and_comm]
  | returns value =>
    rw [ofValue_known rfl, Written]
    refine isNode_congr fun o => ?_
    have hnames : "argument" ≠ "value" := by decide
    rw [← reads_optional Variable.null_ne_ok fun _ _ _ => Expression.ofValue_iff]
    simp only [reads_swap "value", ← reads_expression? hnames "value"]
    simp only [ofFields, bind_pure_comp, bind_eq_ok, field?_eq_ok, reads_ofMembers,
      expressionOf?_ofValue, map_eq_ok, returns.injEq]
    constructor
    · rintro ⟨a, ha, b, hb, hjoin⟩
      exact ⟨b, ⟨a, ha, hb⟩, hjoin⟩
    · rintro ⟨b, ⟨a, ha, hb⟩, hjoin⟩
      exact ⟨a, ha, b, hb, hjoin⟩
  | breaks =>
    rw [ofValue_known rfl, Written]
    exact isNode_congr fun o => by simp [ofFields]
  | continues =>
    rw [ofValue_known rfl, Written]
    exact isNode_congr fun o => by simp [ofFields]
  | evaluate expression =>
    rw [ofValue_known rfl, Written]
    refine isNode_congr fun o => ?_
    simp [ofFields, reads_expression]
  | declare declared =>
    rw [ofValue_known rfl, Written]
    refine isNode_congr fun o => ?_
    simp [ofFields, Members.values_ofMembers, Variable.ofMembers_iff]
  | unsupported kind =>
    rw [ofValue_unsupported, Written]

end Statement

end Advisor
