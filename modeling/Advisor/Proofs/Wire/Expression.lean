import Advisor.Proofs.Wire.Node

/-!
# Expressions are read as the grammar has them

A value is read as an expression exactly if it is a writing of it. The proof is by induction on the
expression: its tag has one production, and each of its fields is read by itself.
-/

namespace Advisor

open Wire

namespace Expression

/-- The tag of an expression that is supported. -/
def tag? : Expression → Option Tag
  | number _ => some .numberLiteral
  | text _ => some .stringLiteral
  | boolean _ => some .booleanLiteral
  | identifier _ => some .identifier
  | binary _ _ _ => some .binaryExpression
  | unary _ _ _ => some .unaryExpression
  | assignment _ _ _ => some .assignmentExpression
  | conditional _ _ _ => some .conditionalExpression
  | call _ _ => some .callExpression
  | element _ _ => some .arrayAccess
  | unsupported _ => none

theorem ofName?_eq_some (name : String) (tag : Tag) :
    Tag.ofName? name = some tag ↔ tag.name = name :=
  find?_tag_eq_some fun t => by cases t <;> rfl

theorem ofName?_eq_none {name : String} : Tag.ofName? name = none ↔ name ∉ tags :=
  find?_tag_eq_none

theorem tag?_of_ofFields {members : Members Expression} {tag : Tag} {e : Expression}
    (h : ofFields members tag = .ok e) : e.tag? = some tag := by
  cases tag <;>
    simp only [ofFields, bind_eq_ok, pure_eq_ok] at h <;> grind [tag?]

/-- The readings of the members of an object. -/
abbrev readings (o : Object) : Members Expression := Reading.ofMembers ofMembers o

@[simp] theorem node_ofValue (v : Json.Value) :
    (Reading.ofValue ofMembers v).node = ofValue v := rfl

theorem ofValue_eq_ok (v : Json.Value) (e : Expression) : ofValue v = .ok e ↔
    ∃ tag, IsNode tag (fun o => (∃ t, Tag.ofName? tag = some t ∧ ofFields (readings o) t = .ok e) ∨
      Tag.ofName? tag = none ∧ unsupported tag = e) v := by
  cases v with
  | object o =>
    rw [ofValue, Reading.ofValue]
    simp only [ofMembers, Members.values_ofMembers, bind_eq_ok, tagOf_eq_ok, IsNode,
      Json.Value.object.injEq, exists_eq_left']
    refine exists_congr fun tag => and_congr_right fun _ => ?_
    cases Tag.ofName? tag <;> simp
  | _ => simp [ofValue, Reading.ofValue, IsNode]

theorem ofValue_known {v : Json.Value} {e : Expression} {tag : Tag} (he : e.tag? = some tag) :
    ofValue v = .ok e ↔ IsNode tag.name (fun o => ofFields (readings o) tag = .ok e) v :=
  read_known_iff ofValue_eq_ok (fun _ _ _ => tag?_of_ofFields) (fun _ => rfl) ofName?_eq_some he

theorem ofValue_unsupported {v : Json.Value} {kind : String} :
    ofValue v = .ok (.unsupported kind) ↔ IsNode kind (fun _ => kind ∉ tags) v := by
  rw [read_other_iff ofValue_eq_ok (fun _ _ _ => tag?_of_ofFields) (fun _ => rfl)
    fun _ _ => unsupported.inj]
  exact isNode_congr fun _ => ofName?_eq_none

theorem reads_node {o : Object} {name other : String} (h : name ≠ other) (field : String)
    {part : Option Expression} :
    (∃ earlier, Reads o [name] ofValue earlier
        ∧ (readings o).respelled? other field earlier Reading.node = .ok part) ↔
      Reads o [name, other] ofValue part :=
  reads_respelled h

theorem ofValue_iff {v : Json.Value} {e : Expression} : ofValue v = .ok e ↔ e.Written v := by
  have reads_text {o : Object} {names : List String} {s : String} :
      Reads o names Wire.text (some s) ↔ Required o names (IsText s) :=
    reads_required fun _ => text_eq_ok
  induction e generalizing v with
  | number x =>
    rw [ofValue_known rfl, Written]
    refine isNode_congr fun o => ?_
    simp [ofFields, reads_required fun _ => double_eq_ok]
  | text s =>
    rw [ofValue_known rfl, Written]
    refine isNode_congr fun o => ?_
    simp [ofFields, reads_text]
  | boolean b =>
    rw [ofValue_known rfl, Written]
    refine isNode_congr fun o => ?_
    simp [ofFields, reads_required fun _ => flag_eq_ok]
  | identifier name =>
    rw [ofValue_known rfl, Written]
    refine isNode_congr fun o => ?_
    simp [ofFields, reads_text]
  | binary operator left right ihl ihr =>
    rw [ofValue_known rfl, Written]
    refine isNode_congr fun o => ?_
    simp [ofFields, reads_text, reads_required fun _ => ihl, reads_required fun _ => ihr,
      and_left_comm]
  | unary operator leading operand ih =>
    rw [ofValue_known rfl, Written]
    refine isNode_congr fun o => ?_
    have hnames : "argument" ≠ "operand" := by decide
    rw [← reads_required fun _ => ih, reads_swap "operand", ← reads_node hnames "operand",
      ← reads_defaulted fun _ => flag_eq_ok]
    simp only [ofFields, bind_pure_comp, bind_eq_ok, field?_eq_ok, reads_ofMembers, node_ofValue,
      Reading.value_ofValue, required_eq_ok, map_eq_ok, unary.injEq, ↓existsAndEq, and_true,
      true_and, reads_text, exists_and_left]
    constructor
    · rintro ⟨part, hpart, hspelled, hoperator, hprefix⟩
      exact ⟨hoperator, ⟨part, hpart, hspelled⟩, hprefix⟩
    · rintro ⟨hoperator, ⟨part, hpart, hspelled⟩, hprefix⟩
      exact ⟨part, hpart, hspelled, hoperator, hprefix⟩
  | assignment operator left right ihl ihr =>
    rw [ofValue_known rfl, Written]
    refine isNode_congr fun o => ?_
    rw [← reads_defaulted fun _ => text_eq_ok]
    simp only [ofFields, bind_pure_comp, bind_eq_ok, field?_eq_ok, reads_ofMembers, node_ofValue,
      Reading.value_ofValue, required_eq_ok, map_eq_ok, assignment.injEq, ↓existsAndEq, and_true,
      reads_required fun _ => ihr, true_and, reads_required fun _ => ihl, exists_and_left]
    constructor
    · rintro ⟨hleft, part, hpart, hright, hoperator⟩
      exact ⟨⟨part, hpart, hoperator⟩, hleft, hright⟩
    · rintro ⟨⟨part, hpart, hoperator⟩, hleft, hright⟩
      exact ⟨hleft, part, hpart, hright, hoperator⟩
  | conditional condition consequent alternate ihc ihl ihr =>
    rw [ofValue_known rfl, Written]
    refine isNode_congr fun o => ?_
    have hnames : "condition" ≠ "test" := by decide
    rw [← reads_required fun _ => ihc, ← reads_node hnames "condition"]
    simp only [ofFields, bind_pure_comp, bind_eq_ok, field?_eq_ok, reads_ofMembers, node_ofValue,
      required_eq_ok, map_eq_ok, conditional.injEq, ↓existsAndEq, and_true, true_and,
      reads_required fun _ => ihl, reads_required fun _ => ihr, exists_and_left]
    constructor
    · rintro ⟨halternate, part, hpart, hconsequent, hspelled⟩
      exact ⟨⟨part, hpart, hspelled⟩, hconsequent, halternate⟩
    · rintro ⟨⟨part, hpart, hspelled⟩, hconsequent, halternate⟩
      exact ⟨halternate, part, hpart, hconsequent, hspelled⟩
  | call callee arguments ih =>
    rw [ofValue_known rfl, Written]
    refine isNode_congr fun o => ?_
    have hnodes (v : Json.Value) : (Reading.ofValue ofMembers v).nodes = .ok arguments ↔
        ∃ items, v = .array items ∧ AllWritten arguments items := by
      simp only [Reading.nodes_ofValue, Reading.nodesOf_eq_ok, allWritten_iff, node_ofValue,
        forall₂_congr_of_mem fun e he v => ih e he (v := v)]
    rw [← reads_defaulted hnodes]
    simp only [ofFields, bind_pure_comp, bind_eq_ok, field?_eq_ok, reads_ofMembers,
      Reading.value_ofValue, map_eq_ok, required_eq_ok, call.injEq, ↓existsAndEq, true_and,
      reads_text]
    constructor
    · rintro ⟨part, hpart, hcallee, harguments⟩
      exact ⟨hcallee, part, hpart, harguments⟩
    · rintro ⟨hcallee, part, hpart, harguments⟩
      exact ⟨part, hpart, hcallee, harguments⟩
  | element array index iha ihi =>
    rw [ofValue_known rfl, Written]
    refine isNode_congr fun o => ?_
    simp [ofFields, reads_required fun _ => iha, reads_required fun _ => ihi]
  | unsupported kind =>
    rw [ofValue_unsupported, Written]

end Expression

end Advisor
