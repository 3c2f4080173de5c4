import Advisor.Proofs.Wire.Statement

/-!
# Functions and declarations are read as the grammar has them
-/

namespace Advisor

open Wire

namespace Wire

theorem mapM_eq_ok {α β : Type} {read : α → Except Flaw β} {as : List α} {bs : List β} :
    as.mapM read = .ok bs ↔ List.Forall₂ (fun a b => read a = .ok b) as bs := by
  induction as generalizing bs with
  | nil => rw [List.mapM_nil, pure_eq_ok, List.forall₂_nil_left_iff, eq_comm]
  | cons a as ih =>
    simp only [List.mapM_cons, bind_eq_ok, pure_eq_ok, ih, List.forall₂_cons_left_iff]
    constructor
    · rintro ⟨b, hb, rest, hrest, rfl⟩
      exact ⟨b, rest, hb, hrest, rfl⟩
    · rintro ⟨b, rest, hb, hrest, rfl⟩
      exact ⟨b, hb, rest, hrest, rfl⟩

private theorem listOf_eq_ok {β : Type} {read : Json.Value → Except Flaw β} {v : Json.Value}
    {bs : List β} : listOf read v = .ok bs ↔
      ∃ items, v = .array items ∧ List.Forall₂ (fun item b => read item = .ok b) items bs := by
  cases v <;> simp [listOf, Source.items, mapM_eq_ok]

end Wire

namespace Parameter

private theorem typeOf?_eq_some {o : Object} {type : Option String} :
    typeOf? o = some type ↔ Optional o ["paramType"] IsText type := by
  rw [typeOf?]
  split <;> cases type <;> simp_all [Optional, Required, IsText]

private theorem ofValue?_eq_some {v : Json.Value} {p : Parameter} :
    ofValue? v = some p ↔ p.Written v := by
  obtain ⟨name, type⟩ := p
  cases v with
  | text s => simp [ofValue?, Written, eq_comm]
  | object o =>
    simp only [ofValue?, Written, ← typeOf?_eq_some, Required, gives_singleton, IsText,
      exists_eq_right, reduceCtorEq, false_and, false_or, Json.Value.object.injEq,
      exists_eq_left']
    split <;> simp_all
  | _ => simp [ofValue?, Written]

private theorem read_iff {v : Json.Value} {p : Parameter} : read v = .ok p ↔ p.Written v := by
  rw [← ofValue?_eq_some, read]
  cases hvalue : ofValue? v with
  | none =>
    simp [Source.value, Source.noticesRepeats, hvalue, bind, Except.bind, throw, throwThe,
      MonadExceptOf.throw]
  | some q =>
    simp [Source.value, Source.noticesRepeats, hvalue, bind, Except.bind, pure, Except.pure]

end Parameter

namespace Function

theorem finish_eq_ok {d : Draft} {f : Function} : d.finish = .ok f ↔
    d.name = some f.name ∧ d.parameters.getD [] = f.parameters ∧ d.body = some f.body
      ∧ d.returnType.join = f.returnType := by
  obtain ⟨name, parameters, body, returnType⟩ := d
  obtain ⟨name', parameters', body', returnType'⟩ := f
  cases name <;> cases body <;>
    simp [Draft.finish, pure, Except.pure, throw, throwThe, MonadExceptOf.throw, and_left_comm]

theorem ofMembers_iff {o : Object} {f : Function} : record.ofMembers o = .ok f ↔ f.Fields o := by
  have hbody := @putFields_cons _ _ _ record o (record.finish · = .ok f) "body"
    ["name", "parameters", "returnType"] ⟨none, none, none, none⟩ Statement.ofValue
    (fun part => ⟨none, none, part, none⟩) (fun _ => rfl) rfl
  have hname (body) := @putFields_cons _ _ _ record o (record.finish · = .ok f) "name"
    ["parameters", "returnType"] ⟨none, none, body, none⟩ Wire.text
    (fun part => ⟨part, none, body, none⟩) (fun _ => rfl) rfl
  have hparameters (name body) := @putFields_cons _ _ _ record o (record.finish · = .ok f)
    "parameters" ["returnType"] ⟨name, none, body, none⟩ (listOf Parameter.read)
    (fun part => ⟨name, part, body, none⟩) (fun _ => rfl) rfl
  have hreturnType (name parameters body) := @putFields_cons _ _ _ record o
    (record.finish · = .ok f) "returnType" [] ⟨name, parameters, body, none⟩ (nullable Wire.text)
    (fun part => ⟨name, parameters, body, part⟩) (fun _ => rfl) rfl
  have hfinish (d : Draft) : record.finish d = .ok f ↔ _ := finish_eq_ok
  have hlist (v : Json.Value) : listOf Parameter.read v = .ok f.parameters ↔ ∃ items,
      v = .array items ∧ List.Forall₂ (fun item p => Parameter.Written p item) items f.parameters := by
    simp only [listOf_eq_ok, Parameter.read_iff]
  have hnull (s : String) : Wire.text Json.Value.null ≠ .ok s := by
    simp [text_eq_ok, IsText]
  rw [ofMembers_eq_ok, Fields, ← reads_required fun _ => text_eq_ok, ← reads_defaulted hlist,
    ← reads_required fun _ => Statement.ofValue_iff,
    ← reads_optional hnull fun _ _ _ => text_eq_ok]
  refine hbody.trans ?_
  simp only [hname, hparameters, hreturnType, putFields_nil]
  simp only [hfinish]
  constructor
  · rintro ⟨body, hbody, name, hname, parameters, hparameters, type, htype, rfl, hget, rfl, hjoin⟩
    exact ⟨hname, ⟨parameters, hparameters, hget⟩, hbody, type, htype, hjoin⟩
  · rintro ⟨hname, ⟨parameters, hparameters, hget⟩, hbody, type, htype, hjoin⟩
    exact ⟨_, hbody, _, hname, parameters, hparameters, type, htype, rfl, hget, rfl, hjoin⟩

end Function

namespace Declaration

/-- The tag of a declaration that is supported. -/
def tag? : Declaration → Option Tag
  | .variable _ => some .variableDeclaration
  | .function _ => some .functionDeclaration
  | .unsupported _ => none

theorem ofName?_eq_some (name : String) (tag : Tag) :
    Tag.ofName? name = some tag ↔ tag.name = name :=
  find?_tag_eq_some fun t => by cases t <;> rfl

theorem ofName?_eq_none {name : String} : Tag.ofName? name = none ↔ name ∉ tags :=
  find?_tag_eq_none

theorem tag?_of_ofFields {o : Object} {tag : Tag} {d : Declaration}
    (h : ofFields o tag = .ok d) : d.tag? = some tag := by
  cases tag <;> simp only [ofFields, bind_eq_ok, pure_eq_ok] at h <;> grind [tag?]

theorem ofValue_eq_ok (v : Json.Value) (d : Declaration) : ofValue v = .ok d ↔
    ∃ tag, IsNode tag (fun o => (∃ t, Tag.ofName? tag = some t ∧ ofFields o t = .ok d) ∨
      Tag.ofName? tag = none ∧ unsupported tag = d) v := by
  cases v with
  | object o =>
    simp only [ofValue, bind_eq_ok, tagOf_eq_ok, IsNode, Json.Value.object.injEq, exists_eq_left']
    refine exists_congr fun tag => and_congr_right fun _ => ?_
    cases Tag.ofName? tag <;> simp
  | _ => simp [ofValue, IsNode]

theorem ofValue_known {v : Json.Value} {d : Declaration} {tag : Tag} (hd : d.tag? = some tag) :
    ofValue v = .ok d ↔ IsNode tag.name (fun o => ofFields o tag = .ok d) v :=
  read_known_iff ofValue_eq_ok (fun _ _ _ => tag?_of_ofFields) (fun _ => rfl) ofName?_eq_some hd

theorem ofValue_unsupported {v : Json.Value} {kind : String} :
    ofValue v = .ok (.unsupported kind) ↔ IsNode kind (fun _ => kind ∉ tags) v := by
  rw [read_other_iff ofValue_eq_ok (fun _ _ _ => tag?_of_ofFields) (fun _ => rfl)
    fun _ _ => unsupported.inj]
  exact isNode_congr fun _ => ofName?_eq_none

theorem ofValue_iff {v : Json.Value} {d : Declaration} : ofValue v = .ok d ↔ d.Written v := by
  rcases d with declared | declared | kind
  · rw [ofValue_known rfl, Written]
    exact isNode_congr fun o => by simp [ofFields, Variable.ofMembers_iff]
  · rw [ofValue_known rfl, Written]
    exact isNode_congr fun o => by simp [ofFields, Function.ofMembers_iff]
  · rw [ofValue_unsupported, Written]

end Declaration

end Advisor
