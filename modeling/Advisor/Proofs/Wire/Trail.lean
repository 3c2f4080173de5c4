import Advisor.Proofs.Wire.Script
import Advisor.Proofs.Wire.Visits

/-!
# The trail of tags to a flaw

A node is refused for the first of its fields that cannot be read, with its tag in front of the
message of that field. So where a trail leads through nodes and everything in front of it can be
read, the outermost node is refused with the tags on the trail and the message at its end, whatever
it is that is read there, and so is the script if the node is one of its declarations.
-/

namespace Advisor

namespace Wire

/-- What is read from the value of the field: the value itself, or an item of a list of nodes if the
items in front are read. Null is nothing where there may be nothing. -/
inductive Field.Holds (field : Field) : Json.Value → Content × Json.Value → Prop
  | own {v} (hnull : field.absence = .nothing → v ≠ .null) : Holds field v (field.content, v)
  | item {kind after v} (before) (hcontent : field.content = .nodes kind)
      (hbefore : ∀ item ∈ before, ∃ t, kind.ofValue item = .ok t) :
      Holds field (.array (before ++ v :: after)) (.node kind, v)

/-- A node with the tag holds the inner value in a field, and the fields with earlier names are
read. -/
inductive Leads (tag : String) : Content × Json.Value → Content × Json.Value → Prop
  | field {kind fields o v inner} (field name) (hfields : kind.fields? tag = some fields)
      (htag : Json.latest "type" o = some (.text tag)) (honce : GivenOnce fields o)
      (hfield : field ∈ fields) (hname : name ∈ field.names)
      (hearlier : ∀ f ∈ fields, ∀ n ∈ f.names, precedes n name → ∀ w, Json.latest n o = some w →
        f.read w = .ok ())
      (hv : Json.latest name o = some v) (hholds : field.Holds v inner) :
      Leads tag (.node kind, .object o) inner

/-- The way from a value to one inside it, with the tags of the nodes that it leads through. -/
inductive Trail : Content × Json.Value → List String → Content × Json.Value → Prop
  | here {outer} : Trail outer [] outer
  | step {outer next inner tag tags} (h : Leads tag outer next) (htrail : Trail next tags inner) :
      Trail outer (tag :: tags) inner

/-- The message with the tags in front of it, outermost first. -/
def trailed (tags : List String) (message : String) : String :=
  tags.foldr (fun tag rest => tag ++ ": " ++ rest) message

@[simp] theorem message_within (tag : String) (flaw : Flaw) :
    (Flaw.within tag flaw).message = tag ++ ": " ++ flaw.message := rfl

private theorem message_trailed (tags : List String) (flaw : Flaw) :
    (tags.foldr Flaw.within flaw).message = trailed tags flaw.message := by
  induction tags with
  | nil => simp only [trailed, List.foldr_nil]
  | cons tag tags ih => rw [List.foldr_cons, message_within, ih, trailed, trailed, List.foldr_cons]

private theorem mapM_eq_error {α β : Type} {read : α → Except Flaw β} {before after : List α}
    {a : α}
    {flaw : Flaw} (hbefore : ∀ b ∈ before, ∃ t, read b = .ok t) (ha : read a = .error flaw) :
    (before ++ a :: after).mapM read = .error flaw := by
  induction before with
  | nil =>
    rw [List.nil_append, List.mapM_cons]
    exact bind_error ha _
  | cons b before ih =>
    obtain ⟨t, ht⟩ := hbefore b List.mem_cons_self
    rw [List.cons_append, List.mapM_cons, ht]
    exact bind_error (ih fun c hc => hbefore c (List.mem_cons_of_mem b hc)) _

private theorem Field.read_eq_error {field : Field} {v : Json.Value} {flaw : Flaw}
    (hnull : field.absence = .nothing → v ≠ .null) (h : field.content.read v = .error flaw) :
    field.read v = .error flaw := by
  rw [Field.read]
  cases habsence : field.absence with
  | nothing =>
    refine outcome_eq_error.mpr ?_
    cases v with
    | null => exact absurd rfl (hnull habsence)
    | _ => simp [nullable, Source.found?, Found.ofValue, h, Functor.map, Except.map]
  | _ => exact h

private theorem Field.Holds.read_eq_error {field : Field} {v : Json.Value}
    {inner : Content × Json.Value}
    {flaw : Flaw} (h : field.Holds v inner) (hinner : inner.1.read inner.2 = .error flaw) :
    field.read v = .error flaw := by
  cases h with
  | own hnull => exact Field.read_eq_error hnull hinner
  | item before hcontent hbefore =>
    refine Field.read_eq_error (by simp) ?_
    rw [hcontent]
    exact outcome_eq_error.mpr
      (bind_error (mapM_eq_error hbefore (outcome_eq_error.mp hinner)) _)

/-- The step of a trail: the tag is put in front. -/
theorem Leads.read_eq_error {tag : String} {outer inner : Content × Json.Value} {flaw : Flaw}
    (h : Leads tag outer inner) (hinner : inner.1.read inner.2 = .error flaw) :
    outer.1.read outer.2 = .error (.within tag flaw) := by
  obtain ⟨field, name, hfields, htag, honce, hfield, hname, hearlier, hv, hholds⟩ := h
  exact outcome_eq_error.mpr (ofValue_eq_error_of_field hfields htag honce hfield hname hearlier hv
    (hholds.read_eq_error hinner))

/-- A whole trail: all its tags are. -/
theorem Trail.read_eq_error {tags : List String} {outer inner : Content × Json.Value} {flaw : Flaw}
    (h : Trail outer tags inner) (hinner : inner.1.read inner.2 = .error flaw) :
    outer.1.read outer.2 = .error (tags.foldr .within flaw) := by
  induction h with
  | here => exact hinner
  | step hleads _ ih => exact hleads.read_eq_error (ih hinner)

theorem Trail.ofValue_eq_error {kind : Kind} {v : Json.Value} {tags : List String}
    {inner : Content × Json.Value} {flaw : Flaw} (h : Trail (.node kind, v) tags inner)
    (hinner : inner.1.read inner.2 = .error flaw) :
    kind.ofValue v = .error (tags.foldr .within flaw) :=
  outcome_eq_error.mp (h.read_eq_error hinner)

end Wire

open Wire

namespace Script

/-- The declaration stands in the document of a script, as an item of a member or in the second item
of an array, and the front is the document as it would be if it ended there. -/
inductive Fronts : Json.Document → Json.Document → Json.Document → Prop
  | member {key item later rest closed closed'} (members earlier)
      (hkey : key = "declarations" ∨ key = "body") :
      Fronts (.object (members ++ [(some key, .array earlier true)]) true) item
        (.object (members ++ (some key, .array (earlier ++ item :: later) closed) :: rest) closed')
  | second {name earlier item later rest closed closed'} :
      Fronts (.array [name, .array earlier true] true) item
        (.array (name :: .array (earlier ++ item :: later) closed :: rest) closed')

section

variable {levels : Nat} {earlier later : List Json.Document} {item : Json.Document} {closed : Bool}
  {d e : Draft} {v : Json.Value} {flaw : Flaw}

private theorem putMembers_append (members rest : List (Option String × Json.Document))
    (d : Draft) :
    record.putMembers levels (members ++ rest) d
      = record.putMembers levels members d >>= record.putMembers levels rest := by
  induction members generalizing d with
  | nil => rfl
  | cons member members ih =>
    obtain ⟨_ | name, document⟩ := member
    · rfl
    rw [List.cons_append, Record.putMembers, Record.putMembers]
    split
    · simp only [ih, bind_assoc]
    · split
      · exact ih d
      · rfl

private theorem put_eq_error
    (h : record.put "declarations" (Excerpt.mk (levels + 1) (.array earlier true)) d = .ok e)
    (hitem : item.value? levels = some v) (hv : Declaration.ofValue v = .error flaw) :
    record.put "declarations" (Excerpt.mk (levels + 1) (.array (earlier ++ item :: later) closed)) d
      = .error flaw := by
  obtain ⟨part, honce, -⟩ := bind_eq_ok.mp h
  obtain ⟨hnone, declarations, hlist, -⟩ := once_eq_ok.mp honce
  obtain ⟨⟨_, complete⟩, hitems, hread⟩ := bind_eq_ok.mp hlist
  obtain ⟨rfl, -⟩ := Prod.mk.inj (Except.ok.inj hitems)
  obtain ⟨read, hmap, -⟩ := bind_eq_ok.mp hread
  have hearlier : ∀ excerpt ∈ earlier.map (Excerpt.mk levels), ∃ declaration,
      (do Declaration.ofValue (← Source.value excerpt)) = .ok declaration := by
    intro excerpt hexcerpt
    exact exists_of_forall₂ (mapM_eq_ok.mp hmap) hexcerpt
  have hread :
      (do Declaration.ofValue (← Source.value (Excerpt.mk levels item))) = .error flaw := by
    simp only [Source.value, hitem]
    exact hv
  have hmap : ((earlier ++ item :: later).map (Excerpt.mk levels)).mapM
      (fun r => do Declaration.ofValue (← Source.value r)) = .error flaw := by
    rw [List.map_append, List.map_cons]
    exact mapM_eq_error hearlier hread
  have hlist : listOf (fun r => do Declaration.ofValue (← Source.value r))
      (Excerpt.mk (levels + 1) (.array (earlier ++ item :: later) closed)) = .error flaw :=
    bind_error hmap _
  refine bind_error ?_ _
  rw [hnone]
  exact congrArg (some <$> ·) hlist

end

private theorem Fronts.ofExcerpt_eq_error {front item document : Json.Document} {script : Script}
    {v : Json.Value} {flaw : Flaw} (h : Fronts front item document)
    (hfront : record.ofExcerpt ⟨nesting, front⟩ = .ok script)
    (hitem : item.value? declarationLevels = some v) (hv : Declaration.ofValue v = .error flaw) :
    record.ofExcerpt ⟨nesting, document⟩ = .error flaw := by
  cases h with
  | @member key _ later rest closed closed' members earlier hkey =>
    have hfield : record.field? key = some "declarations" := by
      rcases hkey with rfl | rfl <;> rfl
    obtain ⟨d, hput, -⟩ := bind_eq_ok.mp hfront
    rw [putMembers_append] at hput
    obtain ⟨d', hmembers, hput⟩ := bind_eq_ok.mp hput
    rw [Record.putMembers, hfield] at hput
    obtain ⟨e, hput, -⟩ := bind_eq_ok.mp hput
    refine bind_error ?_ _
    rw [putMembers_append, hmembers]
    change record.putMembers _ (_ :: rest) d' = _
    rw [Record.putMembers, hfield]
    exact bind_error (put_eq_error hput hitem hv) _
  | @second name earlier _ later rest closed closed' =>
    obtain ⟨d, hput, -⟩ := bind_eq_ok.mp hfront
    obtain ⟨d', hname, hput⟩ := bind_eq_ok.mp hput
    obtain ⟨e, hput, -⟩ := bind_eq_ok.mp hput
    refine bind_error ?_ _
    change record.put "name" (Excerpt.mk _ name) _ >>= _ = _
    rw [hname]
    exact bind_error (put_eq_error hput hitem hv) _

theorem Fronts.decode_eq_error {s : String} {front item : Json.Document} {script : Script}
    {v : Json.Value} {flaw : Flaw} (h : Fronts front item (Json.Document.ofText s).1)
    (hfront : record.ofExcerpt ⟨nesting, front⟩ = .ok script)
    (hitem : item.value? declarationLevels = some v) (hv : Declaration.ofValue v = .error flaw) :
    decode s = .error (.invalidScript flaw.message) := by
  have hread : ofText s = .error flaw := by
    rw [ofText, Wire.ofText]
    generalize Json.Document.ofText s = parsed at h
    exact bind_error (h.ofExcerpt_eq_error hfront hitem hv) _
  rw [decode, hread]
  rfl

end Script

namespace Wire

/-- A flaw is reported with the tags that lead to it, outermost first, and as that of the script if
they lead there from a declaration behind others that are read. -/
theorem decode_error_trail :
    (∀ kind v tags inner flaw, Trail (.node kind, v) tags inner →
      inner.1.read inner.2 = .error flaw →
      ∃ outer, kind.ofValue v = .error outer ∧ outer.message = trailed tags flaw.message)
    ∧ ∀ s front script item v tags inner flaw,
      Script.Fronts front item (Json.Document.ofText s).1 →
      Script.record.ofExcerpt ⟨nesting, front⟩ = .ok script →
      item.value? Script.declarationLevels = some v → Trail (.node .declaration, v) tags inner →
      inner.1.read inner.2 = .error flaw →
      Script.decode s = .error (.invalidScript (trailed tags flaw.message)) := by
  refine ⟨fun kind v tags inner flaw htrail hinner => ?_, ?_⟩
  · exact ⟨_, htrail.ofValue_eq_error hinner, message_trailed tags flaw⟩
  · intro s front script item v tags inner flaw hfronts hfront hitem htrail hinner
    rw [← message_trailed]
    exact hfronts.decode_eq_error hfront hitem (htrail.ofValue_eq_error hinner)

/-- A return of an identifier without a name. -/
def namelessReturn : Json.Value :=
  .object [("type", .text "ReturnStatement"), ("value", .object [("type", .text "Identifier")])]

/-- The return behind another statement of a branch. -/
def namelessBranch : Json.Value :=
  .object [("type", .text "IfStatement"),
    ("consequent", .object [("type", .text "BlockStatement"),
      ("body", .array [.object [("type", .text "BreakStatement")], namelessReturn])]),
    ("condition", .object [("type", .text "BooleanLiteral"), ("value", .bool true)])]

/-- A script with the return in its second declaration. -/
def nameless : String :=
  "\x7b\"body\":[\x7b\"type\":\"Import\"\x7d,\x7b\"type\":\"FunctionDeclaration\",
    \"body\":\x7b\"type\":\"ReturnStatement\",\"value\":\x7b\"type\":\"Identifier\"\x7d\x7d\x7d]\x7d"

def namelessFunction : Json.Document :=
  .object [(some "type", .text "FunctionDeclaration"),
    (some "body", .object [(some "type", .text "ReturnStatement"),
      (some "value", .object [(some "type", .text "Identifier")] true)] true)] true

private theorem ofText_nameless : (Json.Document.ofText nameless).1
    = .object [(some "body", .array [.object [(some "type", .text "Import")] true,
      namelessFunction] true)] true := by
  have htokens : Json.Token.ofText nameless = [.beginObject, .text "body", .colon, .beginArray,
      .beginObject, .text "type", .colon, .text "Import", .endObject, .comma, .beginObject,
      .text "type", .colon, .text "FunctionDeclaration", .comma, .text "body", .colon, .beginObject,
      .text "type", .colon, .text "ReturnStatement", .comma, .text "value", .colon, .beginObject,
      .text "type", .colon, .text "Identifier", .endObject, .endObject, .endObject, .endArray,
      .endObject] := by
    decide +kernel
  rw [Json.Document.ofText, htokens]
  rfl

private theorem trail_namelessReturn :
    Trail (.node .statement, namelessReturn) ["ReturnStatement"]
      (.node .expression, .object [("type", .text "Identifier")]) := by
  refine .step (.field ⟨["value", "argument"], .node .expression, .nothing⟩ "value"
    rfl rfl ?_ (by simp) (by simp) ?_ rfl (.own (by simp))) .here
  · unfold GivenOnce
    decide
  · simp [Json.latest]

private theorem trail_namelessBranch :
    Trail (.node .statement, namelessBranch) ["IfStatement", "BlockStatement", "ReturnStatement"]
      (.node .expression, .object [("type", .text "Identifier")]) := by
  refine .step (.field ⟨["consequent", "thenBranch"], .node .statement, .flaw⟩ "consequent"
    rfl rfl ?_ (by simp) (by simp) ?_ rfl (.own (by simp))) ?_
  · unfold GivenOnce
    decide
  · have hcondition : (Content.node .expression).read
        (.object [("type", .text "BooleanLiteral"), ("value", .bool true)]) = .ok () := rfl
    simp [Json.latest, Field.read, hcondition]
  refine .step (.field ⟨["body"], .nodes .statement, .flaw⟩ "body" rfl rfl ?_
    (by simp) (by simp) ?_ rfl (.item [_] rfl ?_)) trail_namelessReturn
  · unfold GivenOnce
    decide
  · simp
  · have hbreak : Kind.statement.ofValue (.object [("type", .text "BreakStatement")])
        = .ok .breaks := rfl
    simpa using ⟨_, hbreak⟩

theorem nameless_trails :
    (∃ flaw, Kind.statement.ofValue namelessBranch = .error flaw ∧ flaw.message =
      "IfStatement: BlockStatement: ReturnStatement: Identifier: missing field `name`")
    ∧ Script.decode nameless = .error (.invalidScript
      "FunctionDeclaration: ReturnStatement: Identifier: missing field `name`") := by
  obtain ⟨hnode, hscript⟩ := decode_error_trail
  have hflaw : (Content.node .expression).read (.object [("type", .text "Identifier")])
      = .error (.within "Identifier" (.missing "name")) := rfl
  constructor
  · obtain ⟨flaw, hread, hmessage⟩ := hnode _ _ _ _ _ trail_namelessBranch hflaw
    exact ⟨flaw, hread, hmessage.trans (by decide +kernel)⟩
  · have hfronts : Script.Fronts
        (.object ([] ++ [(some "body", .array [.object [(some "type", .text "Import")] true] true)])
          true) namelessFunction (Json.Document.ofText nameless).1 := by
      rw [ofText_nameless]
      exact .member [] [_] (.inr rfl)
    have hfront : Script.record.ofExcerpt ⟨nesting, .object ([] ++ [(some "body",
        .array [.object [(some "type", .text "Import")] true] true)]) true⟩
        = .ok ⟨none, [.unsupported "Import"]⟩ := rfl
    have htrail : Trail (.node .declaration, .object [("type", .text "FunctionDeclaration"),
        ("body", namelessReturn)]) ["FunctionDeclaration", "ReturnStatement"]
        (.node .expression, .object [("type", .text "Identifier")]) := by
      refine .step (.field ⟨["body"], .node .statement, .flaw⟩ "body" rfl rfl
        ?_ (by simp [functionFields]) (by simp) ?_ rfl (.own (by simp))) trail_namelessReturn
      · unfold GivenOnce
        decide
      · simp [functionFields, Json.latest]
    have hdecode := hscript nameless _ _ _ _ _ _ _ hfronts hfront rfl htrail hflaw
    rw [hdecode]
    have hmessage : trailed ["FunctionDeclaration", "ReturnStatement"]
        (Flaw.within "Identifier" (.missing "name")).message
        = "FunctionDeclaration: ReturnStatement: Identifier: missing field `name`" := by
      decide +kernel
    rw [hmessage]

end Wire

end Advisor
