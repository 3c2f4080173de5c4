import Advisor.Wire.Node
import Mathlib.Data.List.Forall2

/-!
# What it takes to read a field

A field may have several names, and an object gives it under one of them or lacks it. The readers of
fields succeed exactly if the object does one of the two and what it gives can be read.
-/

namespace Advisor.Wire

section Except

variable {ε ε' α β : Type}

@[simp] theorem bind_eq_ok {x : Except ε α} {f : α → Except ε β} {b : β} :
    x >>= f = .ok b ↔ ∃ a, x = .ok a ∧ f a = .ok b := by
  cases x <;> simp [bind, Except.bind]

@[simp] theorem map_eq_ok {x : Except ε α} {f : α → β} {b : β} :
    f <$> x = .ok b ↔ ∃ a, x = .ok a ∧ f a = b := by
  cases x <;> simp [Functor.map, Except.map]

@[simp] theorem pure_eq_ok {a b : α} : (pure a : Except ε α) = .ok b ↔ a = b := by
  simp [pure, Except.pure]

@[simp] theorem mapError_eq_ok {x : Except ε α} {f : ε → ε'} {a : α} :
    x.mapError f = .ok a ↔ x = .ok a := by
  cases x <;> simp [Except.mapError]

@[simp] theorem throw_ne_ok {e : ε} {a : α} : (throw e : Except ε α) ≠ .ok a := by
  simp [throw, throwThe, MonadExceptOf.throw]

end Except

section Names

variable {γ : Type} {members : List (String × γ)} {name other : String} {value : γ}

/-- The object gives the value under one of the names, and none under the others. -/
def Gives (members : List (String × γ)) (names : List String) (value : γ) : Prop :=
  ∃ name ∈ names, Json.latest name members = some value
    ∧ ∀ other ∈ names, other ≠ name → Json.latest other members = none

/-- The object gives nothing under any of the names. -/
def Lacks (members : List (String × γ)) (names : List String) : Prop :=
  ∀ name ∈ names, Json.latest name members = none

@[simp] theorem gives_singleton :
    Gives members [name] value ↔ Json.latest name members = some value := by
  simp [Gives]

@[simp] theorem lacks_singleton : Lacks members [name] ↔ Json.latest name members = none := by
  simp [Lacks]

private theorem lacks_pair : Lacks members [name, other] ↔
    Json.latest name members = none ∧ Json.latest other members = none := by
  simp [Lacks]

theorem gives_pair (h : name ≠ other) : Gives members [name, other] value ↔
    (Json.latest name members = some value ∧ Json.latest other members = none) ∨
      (Json.latest name members = none ∧ Json.latest other members = some value) := by
  simp [Gives, h, h.symm, and_comm]

private theorem gives_swap :
    Gives members [name, other] value ↔ Gives members [other, name] value := by
  by_cases h : name = other
  · rw [h]
  · rw [gives_pair h, gives_pair (Ne.symm h), or_comm, and_comm,
      and_comm (a := Json.latest name members = some value)]

private theorem lacks_swap : Lacks members [name, other] ↔ Lacks members [other, name] := by
  rw [lacks_pair, lacks_pair, and_comm]

end Names

theorem forall₂_congr_of_mem {α β : Type} {R S : α → β → Prop} {as : List α} {bs : List β}
    (h : ∀ b ∈ bs, ∀ a, R a b ↔ S a b) : List.Forall₂ R as bs ↔ List.Forall₂ S as bs := by
  induction bs generalizing as with
  | nil => simp
  | cons b bs ih =>
    have hrest (as : List α) : List.Forall₂ R as bs ↔ List.Forall₂ S as bs :=
      ih fun b' hb' => h b' (List.mem_cons_of_mem b hb')
    simp only [List.forall₂_cons_right_iff, h b List.mem_cons_self, hrest]

section Readings

variable {α β : Type} {node : Members α → Except Flaw α} {members : List (String × Json.Value)}

@[simp] theorem Reading.value_ofValue (v : Json.Value) : (Reading.ofValue node v).value = v := by
  cases v <;> rfl

theorem Reading.nodes_ofValue {v : Json.Value} {as : List α} :
    (Reading.ofValue node v).nodes = .ok as ↔
      ∃ items, v = .array items ∧ Reading.nodesOf node items = .ok as := by
  cases v <;> simp [Reading.ofValue]

theorem Reading.nodesOf_eq_ok {items : List Json.Value} {as : List α} :
    Reading.nodesOf node items = .ok as ↔
      List.Forall₂ (fun item a => (Reading.ofValue node item).node = .ok a) items as := by
  induction items generalizing as with
  | nil => simp [Reading.nodesOf, eq_comm]
  | cons item items ih =>
    rw [Reading.nodesOf, List.forall₂_cons_left_iff, bind_eq_ok]
    constructor
    · rintro ⟨a, ha, h⟩
      obtain ⟨rest, hrest, h⟩ := bind_eq_ok.mp h
      exact ⟨a, rest, ha, ih.mp hrest, (pure_eq_ok.mp h).symm⟩
    · rintro ⟨a, rest, ha, hrest, rfl⟩
      exact ⟨a, ha, bind_eq_ok.mpr ⟨rest, ih.mpr hrest, rfl⟩⟩

theorem Members.values_ofMembers (node : Members α → Except Flaw α)
    (members : List (String × Json.Value)) :
    Members.values (Reading.ofMembers node members) = members := by
  induction members with
  | nil => rfl
  | cons member members ih =>
    rw [Members.values] at ih ⊢
    rw [Reading.ofMembers, List.map_cons, Reading.value_ofValue, ih]

theorem latest_ofMembers (name : String) :
    Json.latest name (Reading.ofMembers node members)
      = (Json.latest name members).map (Reading.ofValue node) := by
  induction members with
  | nil => rfl
  | cons member members ih =>
    obtain ⟨key, value⟩ := member
    rw [Reading.ofMembers, Json.latest, Json.latest, ih]
    cases Json.latest name members with
    | some later => rfl
    | none =>
      dsimp only [Option.map_none]
      split <;> rfl

end Readings

section Reads

variable {β γ : Type} {members : List (String × γ)} {names : List String}
  {read : γ → Except Flaw β}

/-- The field is read as the part, or is lacking and gives none. -/
def Reads (members : List (String × γ)) (names : List String) (read : γ → Except Flaw β) :
    Option β → Prop
  | some b => ∃ value, Gives members names value ∧ read value = .ok b
  | none => Lacks members names

theorem reads_swap (name other : String) {part : Option β} :
    Reads members [name, other] read part ↔ Reads members [other, name] read part := by
  cases part with
  | none => exact lacks_swap
  | some b => simp only [Reads, gives_swap]

@[simp] theorem required_eq_ok {field : String} {part : Option β} {b : β} :
    required field part = .ok b ↔ part = some b := by
  cases part <;> simp [required]

theorem once_eq_ok {field : String} {earlier part : Option β} {read : Except Flaw β} :
    once field earlier read = .ok part ↔ earlier = none ∧ ∃ b, read = .ok b ∧ part = some b := by
  cases earlier <;> simp [once, map_eq_ok, @eq_comm _ part]

end Reads

section Members

variable {α β : Type} {members : Members α} {name other field : String}
  {read : Reading α → Except Flaw β} {part : Option β}

@[simp] theorem field?_eq_ok : members.field? name read = .ok part ↔ Reads members [name] read part := by
  rw [Members.field?]
  cases part with
  | none => cases h : Json.latest name members <;> simp [Reads, h, map_eq_ok]
  | some b => cases h : Json.latest name members <;> simp [Reads, h, map_eq_ok]

private theorem respelled?_eq_ok (h : name ≠ other) :
    (∃ earlier, members.field? name read = .ok earlier
        ∧ members.respelled? other field earlier read = .ok part) ↔
      Reads members [name, other] read part := by
  simp only [field?_eq_ok, Members.respelled?]
  cases hother : Json.latest other members with
  | none =>
    cases part with
    | none => simp [Reads, lacks_pair, hother]
    | some b => simp [Reads, gives_pair h, hother]
  | some m =>
    cases part with
    | none => simp [Reads, lacks_pair, hother, once_eq_ok]
    | some b => simp [Reads, gives_pair h, hother, once_eq_ok, and_assoc]

@[simp] theorem reads_ofMembers {node : Members α → Except Flaw α} {object : List (String × Json.Value)}
    {names : List String} :
    Reads (Reading.ofMembers node object) names read part ↔
      Reads object names (fun v => read (Reading.ofValue node v)) part := by
  cases part with
  | none => simp [Reads, Lacks, latest_ofMembers]
  | some b =>
    simp only [Reads, Gives, latest_ofMembers, Option.map_eq_some_iff, Option.map_eq_none_iff]
    constructor
    · rintro ⟨-, ⟨name, hname, ⟨v, hv, rfl⟩, hothers⟩, hread⟩
      exact ⟨v, ⟨name, hname, hv, hothers⟩, hread⟩
    · rintro ⟨v, ⟨name, hname, hv, hothers⟩, hread⟩
      exact ⟨_, ⟨name, hname, ⟨v, hv, rfl⟩, hothers⟩, hread⟩

theorem reads_respelled {node : Members α → Except Flaw α} {object : List (String × Json.Value)}
    (h : name ≠ other) :
    (∃ earlier, Reads object [name] (fun v => read (Reading.ofValue node v)) earlier
        ∧ (Reading.ofMembers node object).respelled? other field earlier read = .ok part) ↔
      Reads object [name, other] (fun v => read (Reading.ofValue node v)) part := by
  simp only [← reads_ofMembers, ← field?_eq_ok, respelled?_eq_ok h]

end Members

end Advisor.Wire
