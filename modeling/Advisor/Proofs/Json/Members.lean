import Advisor.Json.Document
import Mathlib.Data.List.Dedup
import Mathlib.Data.List.Forall2

/-!
# Members without repetitions

A map keeps the last member of each name and goes through them in the order of the names. If no name
repeats, it keeps all members, and a name has the value of the only member of that name.
-/

namespace Advisor.Json

section Names

variable {α : Type} {name : String} {value : α} {members : List (String × α)}

/-- The members of these names, in the order of the names. -/
def picked (names : List String) (members : List (String × α)) : List (String × α) :=
  names.filterMap fun name => (latest name members).map (name, ·)

/-- The members as a map goes through them. -/
def ordered (members : List (String × α)) : List (String × α) :=
  picked (members.map (·.1)).dedup.mergeSort members

theorem mem_of_latest (h : latest name members = some value) : (name, value) ∈ members := by
  induction members with
  | nil => simp [latest] at h
  | cons member members ih =>
    obtain ⟨key, first⟩ := member
    rw [latest] at h
    cases hrest : latest name members with
    | some later =>
      rw [hrest] at h
      exact List.mem_cons_of_mem _ (ih (hrest.trans h))
    | none =>
      simp only [hrest] at h
      split at h
      · next hkey =>
        rw [hkey, Option.some.inj h]
        exact List.mem_cons_self
      · simp at h

private theorem latest_eq_some_iff (hdistinct : (members.map (·.1)).Nodup) :
    latest name members = some value ↔ (name, value) ∈ members := by
  refine ⟨mem_of_latest, fun hmember => ?_⟩
  cases hlatest : latest name members with
  | none => exact absurd (List.mem_map_of_mem hmember) (latest_eq_none_iff.mp hlatest)
  | some found =>
    have hsame := List.inj_on_of_nodup_map hdistinct (mem_of_latest hlatest) hmember rfl
    rw [(Prod.mk.inj hsame).2]

theorem picked_perm (hdistinct : (members.map (·.1)).Nodup) {names : List String}
    (hnames : names.Nodup) :
    (picked names members).Perm (members.filter fun member => member.1 ∈ names) := by
  have hpicked : (picked names members).Nodup := by
    refine hnames.filterMap fun name other member hname hother => ?_
    obtain ⟨value, -, rfl⟩ := Option.map_eq_some_iff.mp hname
    obtain ⟨value', -, heq⟩ := Option.map_eq_some_iff.mp hother
    exact (Prod.mk.inj heq).1.symm
  refine (List.perm_ext_iff_of_nodup hpicked (hdistinct.of_map.filter _)).mpr fun member => ?_
  simp only [picked, List.mem_filterMap, Option.map_eq_some_iff, latest_eq_some_iff hdistinct,
    List.mem_filter, decide_eq_true_eq]
  constructor
  · rintro ⟨name, hname, value, hvalue, rfl⟩
    exact ⟨hvalue, hname⟩
  · rintro ⟨hmember, hname⟩
    exact ⟨member.1, hname, member.2, hmember, rfl⟩

theorem ordered_perm (hdistinct : (members.map (·.1)).Nodup) : (ordered members).Perm members := by
  have hnames := (List.mergeSort_perm (members.map (·.1)).dedup (· ≤ ·)).nodup_iff.mpr
    (List.nodup_dedup _)
  have hall : members.filter (fun member => member.1 ∈ (members.map (·.1)).dedup.mergeSort)
      = members := by
    simp +contextual [List.filter_eq_self, List.mem_mergeSort, List.mem_map_of_mem]
  exact (picked_perm hdistinct hnames).trans (List.Perm.of_eq hall)

theorem not_repeats (hdistinct : (members.map (·.1)).Nodup) : repeats name members = false := by
  have hcount : members.countP (·.1 = name) = (members.map (·.1)).count name := by
    rw [List.count, List.countP_map]
    rfl
  have hone : (members.map (·.1)).count name ≤ 1 := List.nodup_iff_count_le_one.mp hdistinct name
  rw [repeats, decide_eq_false_iff_not, hcount]
  omega

end Names

namespace Value

mutual

/-- No object in the value has two members of one name. -/
def Distinct : Value → Prop
  | array items => DistinctAll items
  | object members => (members.map (·.1)).Nodup ∧ DistinctMembers members
  | _ => True

def DistinctAll : List Value → Prop
  | [] => True
  | item :: rest => item.Distinct ∧ DistinctAll rest

def DistinctMembers : List (String × Value) → Prop
  | [] => True
  | (_, value) :: rest => value.Distinct ∧ DistinctMembers rest

end

theorem distinctAll_iff {items : List Value} : DistinctAll items ↔ ∀ item ∈ items, item.Distinct := by
  induction items with
  | nil => simp [DistinctAll]
  | cons item items ih => rw [DistinctAll, ih, List.forall_mem_cons]

theorem distinctMembers_iff {members : List (String × Value)} :
    DistinctMembers members ↔ ∀ member ∈ members, member.2.Distinct := by
  induction members with
  | nil => simp [DistinctMembers]
  | cons member members ih => rw [DistinctMembers, ih, List.forall_mem_cons]

end Value

namespace Document

variable {levels : Nat}

theorem itemValues?_eq_some {items : List Document} {values : List Value} :
    itemValues? levels items = some values ↔
      List.Forall₂ (fun item value => item.value? levels = some value) items values := by
  induction items generalizing values with
  | nil => simp [itemValues?, eq_comm]
  | cons item items ih =>
    rw [itemValues?, List.forall₂_cons_left_iff]
    simp only [Option.bind_eq_bind, Option.bind_eq_some_iff, Option.pure_def, Option.some.injEq, ih]
    constructor
    · rintro ⟨value, hvalue, rest, hrest, rfl⟩
      exact ⟨value, rest, hvalue, hrest, rfl⟩
    · rintro ⟨value, rest, hvalue, hrest, rfl⟩
      exact ⟨value, hvalue, rest, hrest, rfl⟩

theorem memberValues?_eq_some {members : List (Option String × Document)}
    {values : List (String × Value)} :
    memberValues? levels members = some values ↔
      List.Forall₂ (fun member value => member.1 = some value.1 ∧
        member.2.value? levels = some value.2) members values := by
  induction members generalizing values with
  | nil => simp [memberValues?, eq_comm]
  | cons member members ih =>
    obtain ⟨key, document⟩ := member
    rw [memberValues?, List.forall₂_cons_left_iff]
    simp only [Option.bind_eq_bind, Option.bind_eq_some_iff, Option.pure_def, Option.some.injEq, ih]
    constructor
    · rintro ⟨name, rfl, value, hvalue, rest, hrest, rfl⟩
      exact ⟨(name, value), rest, ⟨rfl, hvalue⟩, hrest, rfl⟩
    · rintro ⟨⟨name, value⟩, rest, ⟨rfl, hvalue⟩, hrest, rfl⟩
      exact ⟨name, rfl, value, hvalue, rest, hrest, rfl⟩

mutual

theorem wellFormed_of_value? : ∀ {levels : Nat} {document : Document} {value : Value},
    document.value? levels = some value → document.wellFormed = true
  | _, .null, _, _ | _, .bool _, _, _ | _, .number _, _, _ | _, .text _, _, _ => rfl
  | _ + 1, .array items true, _, h => by
    obtain ⟨values, hvalues, -⟩ := Option.map_eq_some_iff.mp h
    rw [wellFormed, itemsWellFormed_of_values? hvalues, Bool.and_self]
  | _ + 1, .object members true, _, h => by
    obtain ⟨values, hvalues, -⟩ := Option.map_eq_some_iff.mp h
    rw [wellFormed, membersWellFormed_of_values? hvalues, Bool.and_self]

private theorem itemsWellFormed_of_values? :
    ∀ {levels : Nat} {items : List Document} {values : List Value},
    itemValues? levels items = some values → itemsWellFormed items = true
  | _, [], _, _ => rfl
  | _, item :: rest, _, h => by
    obtain ⟨value, hvalue, hrest⟩ := Option.bind_eq_some_iff.mp h
    obtain ⟨values, hvalues, -⟩ := Option.bind_eq_some_iff.mp hrest
    rw [itemsWellFormed, wellFormed_of_value? hvalue, itemsWellFormed_of_values? hvalues,
      Bool.and_self]

private theorem membersWellFormed_of_values? :
    ∀ {levels : Nat} {members : List (Option String × Document)} {values : List (String × Value)},
    memberValues? levels members = some values → membersWellFormed members = true
  | _, [], _, _ => rfl
  | _, (key, document) :: rest, _, h => by
    obtain ⟨name, -, hmember⟩ := Option.bind_eq_some_iff.mp h
    obtain ⟨value, hvalue, hrest⟩ := Option.bind_eq_some_iff.mp hmember
    obtain ⟨values, hvalues, -⟩ := Option.bind_eq_some_iff.mp hrest
    rw [membersWellFormed, wellFormed_of_value? hvalue, membersWellFormed_of_values? hvalues,
      Bool.and_self]

end

end Document

end Advisor.Json
