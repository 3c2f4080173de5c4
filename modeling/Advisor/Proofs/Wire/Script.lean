import Advisor.Files.Load
import Advisor.Proofs.Wire.Path

/-!
# Scripts are refused with their declarations

A script is read from a text, field by field and declaration by declaration. None of its
declarations is passed over: where one is refused, or one of the nodes in it, the script is.
-/

namespace Advisor

namespace Wire

section Records

variable {δ α : Type} {record : Record δ α} {levels : Nat}

theorem Record.put_of_putMembers {members : List (Option String × Json.Document)} {d e : δ}
    (h : record.putMembers levels members d = .ok e) {name field : String}
    {document : Json.Document} (hmember : (some name, document) ∈ members)
    (hfield : record.field? name = some field) :
    ∃ d' e', record.put field (Excerpt.mk levels document) d' = .ok e' := by
  induction members generalizing d with
  | nil => simp at hmember
  | cons member members ih =>
    obtain ⟨_ | name', document'⟩ := member
    · simp [putMembers] at h
    rw [putMembers] at h
    rcases List.mem_cons.mp hmember with heq | hmember
    · obtain ⟨rfl, rfl⟩ : name = name' ∧ document = document' := by simpa using heq
      rw [hfield] at h
      obtain ⟨d', hput, -⟩ := bind_eq_ok.mp h
      exact ⟨d, d', hput⟩
    · split at h
      · obtain ⟨d', -, hrest⟩ := bind_eq_ok.mp h
        exact ih hrest hmember
      · split at h
        · exact ih h hmember
        · simp at h

theorem Record.put_of_putItems {fields : List String} {items : List Json.Document} {d e : δ}
    (h : record.putItems levels fields items d = .ok e) {field : String} {document : Json.Document}
    (hitem : (field, document) ∈ fields.zip items) :
    ∃ d' e', record.put field (Excerpt.mk levels document) d' = .ok e' := by
  induction fields generalizing items d with
  | nil => simp at hitem
  | cons field' fields ih =>
    cases items with
    | nil => simp at hitem
    | cons document' items =>
      obtain ⟨d', hput, hrest⟩ := bind_eq_ok.mp h
      rcases List.mem_cons.mp hitem with heq | hitem
      · obtain ⟨rfl, rfl⟩ : field = field' ∧ document = document' := by simpa using heq
        exact ⟨d, d', hput⟩
      · exact ih hrest hitem

end Records

end Wire

open Wire

namespace Script

/-- What stands for declarations in the document of a script: the items of each member that gives
them, or of the second item where the fields are given in their order. -/
def declarationItems : Json.Document → List Json.Document
  | .object members _ => members.flatMap fun
    | (some "declarations", .array items _) => items
    | (some "body", .array items _) => items
    | _ => []
  | .array (_ :: .array items _ :: _) _ => items
  | _ => []

/-- The levels that are left for a declaration. -/
def declarationLevels : Nat := nesting - 2

private theorem accepts_of_put {items : List Json.Document} {closed : Bool} {d e : Draft}
    (h : record.put "declarations" (Excerpt.mk (nesting - 1) (.array items closed)) d = .ok e)
    {item : Json.Document} (hitem : item ∈ items) :
    ∃ v, item.value? declarationLevels = some v ∧ Kind.declaration.Accepts v := by
  obtain ⟨part, honce, -⟩ := bind_eq_ok.mp h
  obtain ⟨-, declarations, hlist, -⟩ := once_eq_ok.mp honce
  obtain ⟨⟨_, complete⟩, hitems, hread⟩ := bind_eq_ok.mp hlist
  obtain ⟨rfl, -⟩ := Prod.mk.inj (Except.ok.inj hitems)
  obtain ⟨read, hmap, -⟩ := bind_eq_ok.mp hread
  obtain ⟨declared, hdeclared⟩ :=
    exists_of_forall₂ (mapM_eq_ok.mp hmap) (List.mem_map_of_mem hitem)
  obtain ⟨v, hvalue, hdeclared⟩ := bind_eq_ok.mp hdeclared
  refine ⟨v, ?_, declared, hdeclared⟩
  simp only [Source.value] at hvalue
  split at hvalue
  · rename_i w hw
    rw [← Except.ok.inj hvalue]
    exact hw
  · simp at hvalue

/-- The declarations of a script that is read are all accepted. -/
theorem accepts_of_ofExcerpt {document : Json.Document} {script : Script}
    (h : record.ofExcerpt ⟨nesting, document⟩ = .ok script) {item : Json.Document}
    (hitem : item ∈ declarationItems document) :
    ∃ v, item.value? declarationLevels = some v ∧ Kind.declaration.Accepts v := by
  cases document with
  | object members closed =>
    obtain ⟨d, hput, -⟩ := bind_eq_ok.mp h
    obtain ⟨member, hmember, hitem⟩ := List.mem_flatMap.mp hitem
    have hdeclarations {field : String} (hfield : record.field? field = some "declarations")
        {items : List Json.Document} {closed : Bool} (hitem : item ∈ items)
        (hmember : (some field, .array items closed) ∈ members) :
        ∃ v, item.value? declarationLevels = some v ∧ Kind.declaration.Accepts v := by
      obtain ⟨d', e', hput⟩ := Record.put_of_putMembers hput hmember hfield
      exact accepts_of_put hput hitem
    split at hitem
    · exact hdeclarations rfl hitem hmember
    · exact hdeclarations rfl hitem hmember
    · simp at hitem
  | array fields closed =>
    obtain ⟨d, hput, -⟩ := bind_eq_ok.mp h
    rcases fields with _ | ⟨name, _ | ⟨second, rest⟩⟩
    · simp [declarationItems] at hitem
    · simp [declarationItems] at hitem
    · cases second with
      | array items closed' =>
        have hsecond : ("declarations", Json.Document.array items closed')
            ∈ record.fields.zip (name :: .array items closed' :: rest) := by
          simp [record]
        obtain ⟨d', e', hput⟩ := Record.put_of_putItems hput hsecond
        exact accepts_of_put hput hitem
      | _ => simp [declarationItems] at hitem
  | _ => simp [declarationItems] at hitem

private theorem accepts_of_decode {s : String} {script : Script} (h : decode s = .ok script)
    {item : Json.Document} (hitem : item ∈ declarationItems (Json.Document.ofText s).1) :
    ∃ v, item.value? declarationLevels = some v ∧ Kind.declaration.Accepts v := by
  rw [decode, mapError_eq_ok, ofText, Wire.ofText] at h
  generalize Json.Document.ofText s = parsed at h hitem
  obtain ⟨document, complete⟩ := parsed
  obtain ⟨read, hread, -⟩ := bind_eq_ok.mp h
  exact accepts_of_ofExcerpt hread hitem

theorem decode_eq_error {s : String} (h : ∀ script, decode s ≠ .ok script) :
    ∃ detail, decode s = .error (.invalidScript detail) := by
  cases hread : ofText s with
  | ok script =>
    exact absurd (mapError_eq_ok.mpr hread) (h script)
  | error flaw =>
    refine ⟨flaw.message, ?_⟩
    rw [decode, hread]
    rfl

end Script

namespace Wire

/-- What is read, and as what: exactly the writings that the grammar has, so that a node stands for
one that is not supported only if its own tag is unknown. What is not an object with a text for its
tag is refused, and so is whatever leads to a node that is refused through nodes with known tags; a
script is refused with its declarations. -/
theorem decoding_exact :
    (∀ v e, Expression.ofValue v = .ok e ↔ e.Written v)
    ∧ (∀ v s, Statement.ofValue v = .ok s ↔ s.Written v)
    ∧ (∀ v d, Declaration.ofValue v = .ok d ↔ d.Written v)
    ∧ (∀ kind : Kind, ∀ v, kind.Accepts v → ∃ tag, IsNode tag (fun _ => True) v)
    ∧ (∀ node inner, Relation.ReflTransGen Child node inner → ¬ inner.1.Accepts inner.2 →
      ¬ node.1.Accepts node.2)
    ∧ ∀ s, ∀ item ∈ Script.declarationItems (Json.Document.ofText s).1, ∀ v inner,
      item.value? Script.declarationLevels = some v →
      Relation.ReflTransGen Child (.declaration, v) inner → ¬ inner.1.Accepts inner.2 →
      ∃ detail, Script.decode s = .error (.invalidScript detail) := by
  refine ⟨fun _ _ => Expression.ofValue_iff, fun _ _ => Statement.ofValue_iff,
    fun _ _ => Declaration.ofValue_iff, fun _ _ => Kind.Accepts.isNode,
    fun _ _ hpath => mt (accepts_of_path hpath), ?_⟩
  intro s item hitem v inner hv hpath hinner
  refine Script.decode_eq_error fun script hscript => hinner ?_
  obtain ⟨w, hw, haccepts⟩ := Script.accepts_of_decode hscript hitem
  obtain rfl : w = v := Option.some.inj (hw.symm.trans hv)
  exact accepts_of_path hpath haccepts

/-- A script whose function returns a node without a tag. -/
def untagged : String :=
  "\x7b\"body\":[\x7b\"type\":\"FunctionDeclaration\",\"name\":\"f\",\"body\":\x7b\"type\":\"ReturnStatement\",
    \"argument\":\x7b\"name\":\"x\"\x7d\x7d\x7d]\x7d"

/-- The function of the script, with what it returns. -/
def untaggedFunction : Json.Document :=
  .object [(some "type", .text "FunctionDeclaration"), (some "name", .text "f"),
    (some "body", .object [(some "type", .text "ReturnStatement"),
      (some "argument", .object [(some "name", .text "x")] true)] true)] true

private theorem ofText_untagged :
    (Json.Document.ofText untagged).1 = .object [(some "body", .array [untaggedFunction] true)] true := by
  have htokens : Json.Token.ofText untagged = [.beginObject, .text "body", .colon, .beginArray,
      .beginObject, .text "type", .colon, .text "FunctionDeclaration", .comma, .text "name", .colon,
      .text "f", .comma, .text "body", .colon, .beginObject, .text "type", .colon,
      .text "ReturnStatement", .comma, .text "argument", .colon, .beginObject, .text "name", .colon,
      .text "x", .endObject, .endObject, .endObject, .endArray, .endObject] := by
    decide +kernel
  rw [Json.Document.ofText, htokens]
  rfl

theorem decode_untagged :
    ∃ detail, Script.decode untagged = .error (.invalidScript detail) := by
  obtain ⟨-, -, -, haccepts, -, hscript⟩ := decoding_exact
  have hitem : untaggedFunction ∈ Script.declarationItems (Json.Document.ofText untagged).1 := by
    rw [ofText_untagged]
    exact List.mem_singleton.mpr rfl
  have hbody : Child
      (.declaration, .object [("type", .text "FunctionDeclaration"), ("name", .text "f"),
        ("body", .object [("type", .text "ReturnStatement"),
          ("argument", .object [("name", .text "x")])])])
      (.statement, .object [("type", .text "ReturnStatement"),
        ("argument", .object [("name", .text "x")])]) :=
    ⟨"FunctionDeclaration", ⟨"body", .statement, .single⟩, by decide, rfl, _, rfl, rfl, _, rfl, rfl⟩
  have hargument : Child
      (.statement, .object [("type", .text "ReturnStatement"),
        ("argument", .object [("name", .text "x")])])
      (.expression, .object [("name", .text "x")]) :=
    ⟨"ReturnStatement", ⟨"argument", .expression, .nullable⟩, by decide, rfl, _, rfl, rfl, _, rfl,
      rfl, by simp⟩
  refine hscript untagged untaggedFunction hitem _ _ rfl (.tail (.single hbody) hargument) ?_
  intro h
  obtain ⟨tag, o, ho, htag, -⟩ := haccepts _ _ h
  obtain rfl := Json.Value.object.inj ho
  simp [Json.latest] at htag

/-- A return requires no field, and under either name its field may be null, but under both names it
is given twice. -/
theorem doubled_return_refused :
    IsNode "ReturnStatement" (fun o => ∀ name ∈ ["value", "argument"],
        ∀ w, Json.latest name o = some w → w = .null ∨ Kind.expression.Accepts w)
      (.object [("type", .text "ReturnStatement"), ("value", .null), ("argument", .null)])
    ∧ Statement.ofValue (.object [("type", .text "ReturnStatement"), ("value", .null),
        ("argument", .null)]) = .error (.within "ReturnStatement" (.repeated "value")) := by
  refine ⟨⟨_, rfl, rfl, ?_⟩, rfl⟩
  intro name hname w hw
  have hnames : name = "value" ∨ name = "argument" := by simpa using hname
  rcases hnames with rfl | rfl <;> exact Or.inl (Option.some.inj hw).symm

end Wire

end Advisor
