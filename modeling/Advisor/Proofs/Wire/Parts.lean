import Advisor.Proofs.Json.Members
import Advisor.Proofs.Wire.Declaration
import Mathlib.Data.List.Pairwise

/-!
# Records from values

A field of a record fills a part of the draft, which no other field touches. So it does not matter in
which order the fields are read: a record is read from the members of an object as from a map of
them, which has them in the order of their names.
-/

namespace Advisor

open Wire

namespace Wire

section Except

variable {ε ε' α β : Type}

theorem toOption_bind (x : Except ε α) (f : α → Except ε β) :
    (x >>= f).toOption = x.toOption.bind fun a => (f a).toOption := by
  cases x <;> rfl

theorem toOption_mapError (x : Except ε α) (f : ε → ε') : (x.mapError f).toOption = x.toOption := by
  cases x <;> rfl

theorem toOption_eq_some {x : Except ε α} {a : α} : x.toOption = some a ↔ x = .ok a := by
  cases x <;> simp [Except.toOption]

end Except

/-- A part of a draft and the reader of its field. -/
structure FieldPart (δ : Type) where
  field : String
  content : Type
  get : δ → Option content
  set : δ → Option content → δ
  read : Json.Value → Except Flaw content

namespace FieldPart

variable {δ : Type}

/-- Fills the part, unless it is filled. -/
def fill (p : FieldPart δ) (v : Json.Value) (d : δ) : Option δ :=
  match p.get d, (p.read v).toOption with
  | none, some content => some (p.set d (some content))
  | _, _ => none

/-- The parts do not touch each other. -/
@[mk_iff]
structure Apart (p q : FieldPart δ) : Prop where
  get_set : ∀ d content, q.get (p.set d content) = q.get d
  set_get : ∀ d content, p.get (q.set d content) = p.get d
  set_set : ∀ d content content', q.set (p.set d content) content' = p.set (q.set d content') content

instance : Std.Symm (@Apart δ) where
  symm _ _ h := ⟨h.set_get, h.get_set, fun d content content' => (h.set_set d content' content).symm⟩

variable {p q : FieldPart δ} (v w : Json.Value) (d : δ)

private theorem fill_swap (h : p.Apart q) :
    (p.fill v d).bind (q.fill w) = (q.fill w d).bind (p.fill v) := by
  cases hp : p.get d <;> cases hq : q.get d <;> cases hv : (p.read v).toOption <;>
    cases hw : (q.read w).toOption <;>
    simp [fill, hp, hq, hv, hw, h.get_set, h.set_get, h.set_set]

private theorem fill_twice (h : ∀ d content, p.get (p.set d content) = content) :
    (p.fill v d).bind (p.fill w) = none := by
  cases hp : p.get d <;> cases hv : (p.read v).toOption <;> simp [fill, hp, hv, h]

private theorem fill_eq_once : p.fill v d = (once p.field (p.get d) (p.read v) >>= fun content =>
    pure (p.set d content)).toOption := by
  cases hp : p.get d <;> cases hv : p.read v <;>
    simp [once, fill, hp, hv, Except.toOption, bind, Except.bind, pure, Except.pure, Functor.map,
      Except.map]

end FieldPart

section Records

variable {δ α : Type}

/-- Reading a field of the record fills its part. -/
structure Filled (record : Record δ α) (parts : List (FieldPart δ)) : Prop where
  put_part : ∀ p ∈ parts, ∀ (v : Json.Value) d, record.put p.field v d
    = once p.field (p.get d) (p.read v) >>= fun content => pure (p.set d content)
  put_other : ∀ field, (∀ p ∈ parts, p.field ≠ field) → ∀ (v : Json.Value) d,
    record.put field v d = .ok d
  lawful : ∀ p ∈ parts, ∀ d content, p.get (p.set d content) = content
  apart : parts.Pairwise FieldPart.Apart

namespace Record

variable (record : Record δ α)

/-- The members that are fields of the record, by the names of the fields. -/
def known (members : List (String × Json.Value)) : List (String × Json.Value) :=
  members.filterMap fun member => (record.field? member.1).map (·, member.2)

/-- Reads one more field, unless an earlier one could not be read. -/
def store (d : Option δ) (entry : String × Json.Value) : Option δ :=
  d.bind fun d => (record.put entry.1 entry.2 d).toOption

/-- The record with these fields, if they can be read in this order. -/
def ofEntries (entries : List (String × Json.Value)) : Option α :=
  (entries.foldl record.store (some record.blank)).bind fun d => (record.finish d).toOption

/-- Reads the record from a value: from an object as from a map, or from an array of at most all its
fields in declared order. -/
def ofValue? : Json.Value → Option α
  | .object members => record.ofEntries (record.known (Json.ordered members))
  | .array items =>
    if items.length ≤ record.fields.length then record.ofEntries (record.fields.zip items) else none
  | _ => none

private theorem foldl_store_none (entries : List (String × Json.Value)) :
    entries.foldl record.store none = none := by
  induction entries with
  | nil => rfl
  | cons entry entries ih => exact ih

theorem foldl_store_cons (field : String) (v : Json.Value) (entries : List (String × Json.Value))
    (d : δ) : ((field, v) :: entries).foldl record.store (some d)
      = (record.put field v d).toOption.bind fun d => entries.foldl record.store (some d) := by
  rw [List.foldl_cons, store, Option.bind_some]
  cases (record.put field v d).toOption with
  | none => exact record.foldl_store_none entries
  | some d => rfl

/-- Fields that are looked up by their names fill the draft as their members would. -/
theorem putFields_eq (members : List (String × Json.Value)) (fields : List String) (d : δ) :
    (record.putFields members fields d).toOption
      = (Json.picked fields members).foldl record.store (some d) := by
  induction fields generalizing d with
  | nil => rfl
  | cons field fields ih =>
    rw [Record.putFields, Json.picked, List.filterMap_cons]
    cases Json.latest field members with
    | none => exact ih d
    | some v =>
      simp only [Option.map_some, foldl_store_cons, toOption_bind]
      exact Option.bind_congr fun d _ => ih d

end Record

namespace Filled

variable {record : Record δ α} {parts : List (FieldPart δ)} (h : Filled record parts)

include h

private theorem put_cases (field : String) :
    (∃ p ∈ parts, ∀ (v : Json.Value) d, (record.put field v d).toOption = p.fill v d) ∨
      ∀ (v : Json.Value) d, (record.put field v d).toOption = some d := by
  by_cases hpart : ∃ p ∈ parts, p.field = field
  · obtain ⟨p, hp, rfl⟩ := hpart
    exact .inl ⟨p, hp, fun v d => by rw [h.put_part p hp, FieldPart.fill_eq_once]⟩
  · simp only [not_exists, not_and] at hpart
    exact .inr fun v d => by rw [h.put_other field hpart v d]; rfl

/-- Two fields may be read in either order: if they fill the same part, neither order succeeds. -/
theorem store_swap (d : Option δ) (a b : String × Json.Value) :
    record.store (record.store d a) b = record.store (record.store d b) a := by
  cases d with
  | none => rfl
  | some d =>
    simp only [Record.store, Option.bind_some]
    obtain ⟨p, hp, hput⟩ | hput := h.put_cases a.1
    · obtain ⟨q, hq, hput'⟩ | hput' := h.put_cases b.1
      · simp only [hput, hput']
        by_cases hpq : p = q
        · subst hpq
          rw [p.fill_twice _ _ d (h.lawful p hp), p.fill_twice _ _ d (h.lawful p hp)]
        · exact FieldPart.fill_swap _ _ d (h.apart.forall hp hq hpq)
      · simp [hput']
    · simp [hput]

private theorem ofEntries_perm {entries entries' : List (String × Json.Value)}
    (hperm : entries.Perm entries') :
    record.ofEntries entries = record.ofEntries entries' := by
  rw [Record.ofEntries, Record.ofEntries,
    hperm.foldl_eq' fun a _ b _ d => h.store_swap d a b]

theorem ofValue?_object {o : Object} (hdistinct : (o.map (·.1)).Nodup) :
    record.ofValue? (.object o) = record.ofEntries (record.known o) :=
  h.ofEntries_perm ((Json.ordered_perm hdistinct).filterMap _)

private theorem ofMembers_eq {o : Object} (hdistinct : (o.map (·.1)).Nodup)
    (hsorted : record.sorted.Nodup)
    (hfield : ∀ name, record.field? name = if name ∈ record.sorted then some name else none) :
    (record.ofMembers o).toOption = record.ofValue? (.object o) := by
  have hknown : record.known o = o.filter fun member => member.1 ∈ record.sorted := by
    rw [Record.known, ← List.filterMap_eq_filter]
    refine List.filterMap_congr fun member _ => ?_
    by_cases hname : member.1 ∈ record.sorted <;> simp [hfield, hname, Option.guard]
  have hpicked : (Json.picked record.sorted o).Perm (record.known o) := by
    rw [hknown]
    exact Json.picked_perm hdistinct hsorted
  rw [h.ofValue?_object hdistinct, ← h.ofEntries_perm hpicked, Record.ofMembers, toOption_bind,
    record.putFields_eq, Record.ofEntries]
  simp only [toOption_mapError]

end Filled

end Records

end Wire

namespace Variable

def parts : List (FieldPart Draft) :=
  [⟨"name", String, (·.name), fun d content => { d with name := content }, Wire.text⟩,
    ⟨"varType", String, (·.type), fun d content => { d with type := content }, Wire.text⟩,
    ⟨"defaultValue", Option Expression, (·.initial), fun d content => { d with initial := content },
      nullable fun v => do Expression.ofValue (← Source.value v)⟩,
    ⟨"isInput", Bool, (·.isInput), fun d content => { d with isInput := content }, flag⟩]

theorem filled : Filled record parts where
  put_part := by
    simp only [parts, List.forall_mem_cons]
    exact ⟨fun _ _ => rfl, fun _ _ => rfl, fun _ _ => rfl, fun _ _ => rfl, by simp⟩
  put_other field hother v d := by
    simp only [parts, List.forall_mem_cons] at hother
    obtain ⟨hname, htype, hinitial, hinput, -⟩ := hother
    simp only [record, Draft.put]
    split <;> first | rfl | contradiction
  lawful := by simp [parts]
  apart := by simp [parts, FieldPart.apart_iff]

theorem ofMembers_eq_ofValue? {o : Object} (hdistinct : (o.map (·.1)).Nodup) :
    (record.ofMembers o).toOption = record.ofValue? (.object o) := by
  refine filled.ofMembers_eq hdistinct (by decide) fun name => ?_
  simp only [record, List.find?_cons, List.mem_cons]
  grind

end Variable

namespace Function

def parts : List (FieldPart Draft) :=
  [⟨"name", String, (·.name), fun d content => { d with name := content }, Wire.text⟩,
    ⟨"parameters", List Parameter, (·.parameters), fun d content => { d with parameters := content },
      listOf Parameter.read⟩,
    ⟨"body", Statement, (·.body), fun d content => { d with body := content },
      fun v => do Statement.ofValue (← Source.value v)⟩,
    ⟨"returnType", Option String, (·.returnType), fun d content => { d with returnType := content },
      nullable Wire.text⟩]

theorem filled : Filled record parts where
  put_part := by
    simp only [parts, List.forall_mem_cons]
    exact ⟨fun _ _ => rfl, fun _ _ => rfl, fun _ _ => rfl, fun _ _ => rfl, by simp⟩
  put_other field hother v d := by
    simp only [parts, List.forall_mem_cons] at hother
    obtain ⟨hname, hparameters, hbody, htype, -⟩ := hother
    simp only [record, Draft.put]
    split <;> first | rfl | contradiction
  lawful := by simp [parts]
  apart := by simp [parts, FieldPart.apart_iff]

theorem ofMembers_eq_ofValue? {o : Object} (hdistinct : (o.map (·.1)).Nodup) :
    (record.ofMembers o).toOption = record.ofValue? (.object o) := by
  refine filled.ofMembers_eq hdistinct (by decide) fun name => ?_
  simp only [record, List.find?_cons, List.mem_cons]
  grind

end Function

namespace Script

def parts : List (FieldPart Draft) :=
  [⟨"name", Option String, (·.name), fun d content => { d with name := content },
      nullable Wire.text⟩,
    ⟨"declarations", List Declaration, (·.declarations),
      fun d content => { d with declarations := content },
      listOf fun v => do Declaration.ofValue (← Source.value v)⟩]

theorem filled : Filled record parts where
  put_part := by
    simp only [parts, List.forall_mem_cons]
    exact ⟨fun _ _ => rfl, fun _ _ => rfl, by simp⟩
  put_other field hother v d := by
    simp only [parts, List.forall_mem_cons] at hother
    obtain ⟨hname, hdeclarations, -⟩ := hother
    simp only [record, Draft.put]
    split <;> first | rfl | contradiction
  lawful := by simp [parts]
  apart := by simp [parts, FieldPart.apart_iff]

end Script

end Advisor
