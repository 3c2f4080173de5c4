import Advisor.Files.Load
import Advisor.Proofs.Wire.Parts

/-!
# Reading from a text and reading from its value

A record is read from a text as the text goes on, while a tagged node is first taken whole, and then
its fields are read by their names. If the text has a value and no object in it repeats a name, both
come to the same: each field is read alike from its place and from its value, and in which order the
fields are read does not matter.
-/

namespace Advisor

open Wire

namespace Wire

/-- What stands at the place is the value. -/
def Stands (e : Excerpt) (v : Json.Value) : Prop := e.document.value? e.levels = some v

theorem value_eq_ok {e : Excerpt} {v : Json.Value} : Source.value e = .ok v ↔ Stands e v := by
  rw [Stands]
  simp only [Source.value]
  split <;> simp_all

namespace Stands

variable {e : Excerpt} {v : Json.Value}

private theorem of_array {items : List Json.Value} (h : Stands e (.array items)) :
    ∃ levels documents, e = ⟨levels + 1, .array documents true⟩
      ∧ List.Forall₂ (fun document item => Stands ⟨levels, document⟩ item) documents items := by
  obtain ⟨levels, document⟩ := e
  change document.value? levels = _ at h
  unfold Json.Document.value? at h
  split at h
  case h_5 levels documents =>
    obtain ⟨found, hfound, hitems⟩ := Option.map_eq_some_iff.mp h
    obtain rfl := Json.Value.array.inj hitems
    exact ⟨levels, documents, rfl, Json.Document.itemValues?_eq_some.mp hfound⟩
  all_goals simp at h

private theorem of_object {o : Object} (h : Stands e (.object o)) :
    ∃ levels members, e = ⟨levels + 1, .object members true⟩
      ∧ List.Forall₂ (fun member value => member.1 = some value.1 ∧ Stands ⟨levels, member.2⟩ value.2)
        members o := by
  obtain ⟨levels, document⟩ := e
  change document.value? levels = _ at h
  unfold Json.Document.value? at h
  split at h
  case h_6 levels members =>
    obtain ⟨found, hfound, hmembers⟩ := Option.map_eq_some_iff.mp h
    obtain rfl := Json.Value.object.inj hmembers
    exact ⟨levels, members, rfl, Json.Document.memberValues?_eq_some.mp hfound⟩
  all_goals simp at h

/-- What the front of the place shows is what the value is. -/
theorem found_eq (h : Stands e v) : Source.found? e = Source.found? v := by
  obtain ⟨levels, document⟩ := e
  change document.value? levels = _ at h
  unfold Json.Document.value? at h
  split at h <;> simp only [Option.map_eq_some_iff, Option.some.injEq, reduceCtorEq] at h
  all_goals first
    | subst h
      rfl
    | obtain ⟨_, hfound, rfl⟩ := h
      simp [Source.found?, Found.ofDocument?, Found.ofValue, *]

private theorem value_eq (h : Stands e v) : Source.value e = .ok v := value_eq_ok.mpr h

private theorem text_eq (h : Stands e v) : Wire.text e = Wire.text v := by
  rw [Wire.text, Wire.text, h.found_eq]

private theorem flag_eq (h : Stands e v) : flag e = flag v := by
  rw [flag, flag, h.found_eq]

private theorem node_eq {β : Type} (h : Stands e v) (read : Json.Value → Except Flaw β) :
    (do read (← Source.value e)) = (do read (← Source.value v)) := by
  rw [h.value_eq]
  rfl

private theorem items_eq (h : Stands e v) (hv : ∀ items, v ≠ .array items) :
    Source.items e = .error (.mismatch (.ofValue v) .sequence) := by
  have hfound : Found.ofDocument? e.document = some (Found.ofValue v) := h.found_eq
  obtain ⟨levels, document⟩ := e
  cases document with
  | array documents closed => cases v <;> simp [Found.ofDocument?, Found.ofValue] at hfound hv
  | _ => simp only [Source.items, hfound, mismatch]

section Readers

variable {β : Type} {read : Excerpt → Except Flaw β} {read' : Json.Value → Except Flaw β}

private theorem nullable_eq (h : Stands e v) (hread : read e = read' v) :
    nullable read e = nullable read' v := by
  rw [nullable, nullable, h.found_eq, hread]

private theorem mapM_eq (hread : ∀ {e v}, Stands e v → v.Distinct → read e = read' v) {levels : Nat}
    {documents : List Json.Document} {items : List Json.Value}
    (h : List.Forall₂ (fun document item => Stands ⟨levels, document⟩ item) documents items)
    (hdistinct : ∀ item ∈ items, item.Distinct) :
    (documents.map (Excerpt.mk levels)).mapM read = items.mapM read' := by
  induction h with
  | nil => rfl
  | cons hitem _ ih =>
    rw [List.forall_mem_cons] at hdistinct
    rw [List.map_cons, List.mapM_cons, List.mapM_cons, hread hitem hdistinct.1, ih hdistinct.2]

private theorem listOf_eq (hread : ∀ {e v}, Stands e v → v.Distinct → read e = read' v)
    (h : Stands e v) (hdistinct : v.Distinct) : listOf read e = listOf read' v := by
  cases v with
  | array items =>
    obtain ⟨levels, documents, rfl, hitems⟩ := h.of_array
    have hall := mapM_eq hread hitems (Json.Value.distinctAll_iff.mp hdistinct)
    simp only [listOf, Source.items, bind, Except.bind] at hall ⊢
    rw [hall]
  | _ =>
    have hitems := h.items_eq (by simp)
    simp only [listOf, hitems]
    rfl

end Readers

end Stands

section Records

variable {δ α : Type} {record : Record δ α}

/-- Each field is read alike from its place and from its value. -/
def Uniform (record : Record δ α) : Prop :=
  ∀ {e v}, Stands e v → v.Distinct → ∀ field d, record.put field e d = record.put field v d

namespace Uniform

variable (h : Uniform record) {levels : Nat}

include h

private theorem putMembers_eq {members : List (Option String × Json.Document)} {o : Object}
    (hmembers : List.Forall₂
      (fun member value => member.1 = some value.1 ∧ Stands ⟨levels, member.2⟩ value.2) members o)
    (hdistinct : ∀ member ∈ o, member.2.Distinct) (d : δ) :
    (record.putMembers levels members d).toOption
      = (record.known o).foldl record.store (some d) := by
  induction hmembers generalizing d with
  | nil => rfl
  | @cons member value members o hmember _ ih =>
    obtain ⟨name, document⟩ := member
    obtain ⟨rfl, hstands⟩ := hmember
    rw [List.forall_mem_cons] at hdistinct
    rw [Record.putMembers, Record.known, List.filterMap_cons]
    cases record.field? value.1 with
    | none =>
      simp only [Json.Document.wellFormed_of_value? hstands, if_true, Option.map_none]
      exact ih hdistinct.2 d
    | some field =>
      simp only [toOption_bind, h hstands hdistinct.1, Option.map_some, record.foldl_store_cons]
      exact Option.bind_congr fun d _ => ih hdistinct.2 d

private theorem putItems_eq {documents : List Json.Document} {items : List Json.Value}
    (hitems : List.Forall₂ (fun document item => Stands ⟨levels, document⟩ item) documents items)
    (hdistinct : ∀ item ∈ items, item.Distinct) (fields : List String) (d : δ) :
    (record.putItems levels fields documents d).toOption
      = if items.length ≤ fields.length then (fields.zip items).foldl record.store (some d)
        else none := by
  induction hitems generalizing fields d with
  | nil => cases fields <;> simp [Record.putItems, Except.toOption]
  | @cons document item documents items hitem _ ih =>
    rw [List.forall_mem_cons] at hdistinct
    cases fields with
    | nil => rfl
    | cons field fields =>
      simp only [Record.putItems, toOption_bind, h hitem hdistinct.1, List.zip_cons_cons,
        record.foldl_store_cons, ih hdistinct.2, List.length_cons, Nat.add_le_add_iff_right]
      split
      · rfl
      · simp

/-- From its place, a record is read as from its value. -/
theorem ofExcerpt_eq {parts : List (FieldPart δ)} (hfilled : Filled record parts) {e : Excerpt}
    {v : Json.Value} (hstands : Stands e v) (hdistinct : v.Distinct) :
    (record.ofExcerpt e).toOption = record.ofValue? v := by
  cases v with
  | object o =>
    obtain ⟨levels, members, rfl, hmembers⟩ := hstands.of_object
    have hput := h.putMembers_eq hmembers (Json.Value.distinctMembers_iff.mp hdistinct.2)
    rw [hfilled.ofValue?_object hdistinct.1, Record.ofEntries, ← hput]
    simp [Record.ofExcerpt, toOption_bind, toOption_mapError]
  | array items =>
    obtain ⟨levels, documents, rfl, hitems⟩ := hstands.of_array
    have hput := h.putItems_eq hitems (Json.Value.distinctAll_iff.mp hdistinct) record.fields
    simp only [Record.ofExcerpt, toOption_bind, hput, Record.ofValue?, Record.ofEntries, if_true,
      toOption_mapError]
    split <;> rfl
  | _ =>
    have hfound := hstands.found_eq
    obtain ⟨levels, document⟩ := e
    cases document <;> simp [Source.found?, Found.ofDocument?, Found.ofValue] at hfound
    all_goals rfl

end Uniform

end Records

end Wire

private theorem Parameter.read_eq {e : Excerpt} {v : Json.Value} (h : Stands e v)
    (hdistinct : v.Distinct) :
    Parameter.read e = Parameter.read v := by
  have hrepeats : Parameter.repeatsField v = false := by
    cases v with
    | object o => simp [Parameter.repeatsField, Json.not_repeats hdistinct.1]
    | _ => rfl
  have hvalue : Source.value v = .ok v := rfl
  simp only [Parameter.read, h.value_eq, hvalue, bind, Except.bind, hrepeats, Bool.and_false]

theorem Variable.uniform : Uniform Variable.record := by
  intro e v h _ field d
  have hinitial : nullable (fun r => do Expression.ofValue (← Source.value r)) e
      = nullable (fun r => do Expression.ofValue (← Source.value r)) v :=
    h.nullable_eq (h.node_eq Expression.ofValue)
  simp only [Variable.record, Variable.Draft.put, h.text_eq, h.flag_eq, hinitial]

theorem Function.uniform : Uniform Function.record := by
  intro e v h hdistinct field d
  have hparameters := h.listOf_eq Parameter.read_eq hdistinct
  have hreturnType := h.nullable_eq h.text_eq
  simp only [Function.record, Function.Draft.put, h.text_eq, hparameters,
    h.node_eq Statement.ofValue, hreturnType]

theorem Script.uniform : Uniform Script.record := by
  intro e v h hdistinct field d
  have hname := h.nullable_eq h.text_eq
  have hdeclarations := h.listOf_eq (fun h _ => h.node_eq Declaration.ofValue) hdistinct
  simp only [Script.record, Script.Draft.put, hname, hdeclarations]

namespace Wire

section Texts

variable {α δ : Type} {s : String} {v : Json.Value}

theorem ofText_eq_ok {read : Excerpt → Except Flaw α} {a : α} : ofText read s = .ok a ↔
    read ⟨nesting, (Json.Document.ofText s).1⟩ = .ok a ∧ (Json.Document.ofText s).2 = true := by
  rw [ofText]
  obtain ⟨document, complete⟩ := Json.Document.ofText s
  simp only [bind_eq_ok]
  cases complete <;> simp [throw, throwThe, MonadExceptOf.throw]

private theorem Uniform.ofText_iff {record : Record δ α} {parts : List (FieldPart δ)}
    (h : Uniform record) (hfilled : Filled record parts) (hvalue : ofText Source.value s = .ok v)
    (hdistinct : v.Distinct) (a : α) :
    ofText record.ofExcerpt s = .ok a ↔ record.ofValue? v = some a := by
  obtain ⟨hstands, hcomplete⟩ := ofText_eq_ok.mp hvalue
  rw [← h.ofExcerpt_eq hfilled (value_eq_ok.mp hstands) hdistinct, toOption_eq_some, ofText_eq_ok]
  exact and_iff_left hcomplete

end Texts

end Wire

namespace Declaration

private theorem ofValue_variable_iff {o : Object} (hdistinct : (o.map (·.1)).Nodup)
    (htag : Json.latest "type" o = some (.text "VariableDeclaration")) (d : Variable) :
    ofValue (.object o) = .ok (.variable d) ↔ Variable.record.ofValue? (.object o) = some d := by
  rw [← Variable.ofMembers_eq_ofValue? hdistinct, toOption_eq_some, ofValue_known rfl]
  simp [IsNode, Tag.name, htag, ofFields]

private theorem ofValue_function_iff {o : Object} (hdistinct : (o.map (·.1)).Nodup)
    (htag : Json.latest "type" o = some (.text "FunctionDeclaration")) (f : Function) :
    ofValue (.object o) = .ok (.function f) ↔ Function.record.ofValue? (.object o) = some f := by
  rw [← Function.ofMembers_eq_ofValue? hdistinct, toOption_eq_some, ofValue_known rfl]
  simp [IsNode, Tag.name, htag, ofFields]

end Declaration

private theorem Statement.ofValue_declare_iff {o : Object} (hdistinct : (o.map (·.1)).Nodup)
    (htag : Json.latest "type" o = some (.text "VariableDeclaration")) (d : Variable) :
    Statement.ofValue (.object o) = .ok (.declare d) ↔
      Variable.record.ofValue? (.object o) = some d := by
  rw [← Variable.ofMembers_eq_ofValue? hdistinct, toOption_eq_some, Statement.ofValue_known rfl]
  simp [IsNode, Statement.Tag.name, htag, Statement.ofFields, Members.values_ofMembers]

namespace Wire

/-- Reading straight from a text gives what its value gives, for scripts, variables and functions;
and what is tagged as a variable or a function is read straight as it is read as a declaration, or
as a statement. -/
theorem direct_reading {s : String} {v : Json.Value} (hvalue : ofText Source.value s = .ok v)
    (hdistinct : v.Distinct) :
    (∀ script, Script.decode s = .ok script ↔ Script.record.ofValue? v = some script)
    ∧ (∀ d, ofText Variable.record.ofExcerpt s = .ok d ↔ Variable.record.ofValue? v = some d)
    ∧ (∀ f, ofText Function.record.ofExcerpt s = .ok f ↔ Function.record.ofValue? v = some f)
    ∧ (IsNode "VariableDeclaration" (fun _ => True) v → ∀ d,
      (ofText Variable.record.ofExcerpt s = .ok d ↔ Declaration.ofValue v = .ok (.variable d))
      ∧ (ofText Variable.record.ofExcerpt s = .ok d ↔ Statement.ofValue v = .ok (.declare d)))
    ∧ (IsNode "FunctionDeclaration" (fun _ => True) v → ∀ f,
      (ofText Function.record.ofExcerpt s = .ok f ↔ Declaration.ofValue v = .ok (.function f))) := by
  have hvariable := Variable.uniform.ofText_iff Variable.filled hvalue hdistinct
  have hfunction := Function.uniform.ofText_iff Function.filled hvalue hdistinct
  refine ⟨fun script => ?_, hvariable, hfunction, ?_, ?_⟩
  · rw [Script.decode, mapError_eq_ok]
    exact Script.uniform.ofText_iff Script.filled hvalue hdistinct script
  · rintro ⟨o, rfl, htag, -⟩ d
    rw [hvariable, Declaration.ofValue_variable_iff hdistinct.1 htag,
      Statement.ofValue_declare_iff hdistinct.1 htag]
    exact ⟨Iff.rfl, Iff.rfl⟩
  · rintro ⟨o, rfl, htag, -⟩ f
    rw [hfunction, Declaration.ofValue_function_iff hdistinct.1 htag]

/-- A variable with a note that nothing reads, and with its type before its name. -/
def notedText : String :=
  "\x7b\"varType\":\"double\",\"note\":\x7b\"name\":\"x\"\x7d,\"type\":\"VariableDeclaration\",
    \"isInput\":true,\"name\":\"risk\"\x7d"

def notedValue : Json.Value :=
  .object [("varType", .text "double"), ("note", .object [("name", .text "x")]),
    ("type", .text "VariableDeclaration"), ("isInput", .bool true), ("name", .text "risk")]

private theorem ofText_notedText : ofText Source.value notedText = .ok notedValue := by
  have htokens : Json.Token.ofText notedText = [.beginObject, .text "varType", .colon,
      .text "double", .comma, .text "note", .colon, .beginObject, .text "name", .colon, .text "x",
      .endObject, .comma, .text "type", .colon, .text "VariableDeclaration", .comma,
      .text "isInput", .colon, .bool true, .comma, .text "name", .colon, .text "risk",
      .endObject] := by
    decide +kernel
  rw [ofText, Json.Document.ofText, htokens]
  rfl

theorem notedText_direct : ofText Source.value notedText = .ok notedValue ∧ notedValue.Distinct
    ∧ Declaration.ofValue notedValue = .ok (.variable ⟨"risk", "double", none, true⟩)
    ∧ ofText Variable.record.ofExcerpt notedText = .ok ⟨"risk", "double", none, true⟩ := by
  have hdistinct : notedValue.Distinct := by
    simp [notedValue, Json.Value.Distinct, Json.Value.DistinctMembers]
  obtain ⟨-, -, -, hvariable, -⟩ := direct_reading ofText_notedText hdistinct
  have hdeclared : Declaration.ofValue notedValue = .ok (.variable ⟨"risk", "double", none, true⟩) :=
    rfl
  exact ⟨ofText_notedText, hdistinct, hdeclared,
    (hvariable ⟨_, rfl, rfl, trivial⟩ _).1.mpr hdeclared⟩

end Wire

end Advisor
