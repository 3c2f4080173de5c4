import Advisor.Json.Document

/-!
# Nesting

How deep containers nest in a value. A document can be taken whole if its containers nest no deeper
than they may, so the nesting of what is read is bounded before anything is made of it.
-/

namespace Advisor.Json

namespace Value

mutual

/-- How many containers stand inside each other, at most. -/
def depth : Value → Nat
  | array items => depthAll items + 1
  | object members => depthMembers members + 1
  | _ => 0

def depthAll : List Value → Nat
  | [] => 0
  | item :: rest => max item.depth (depthAll rest)

def depthMembers : List (String × Value) → Nat
  | [] => 0
  | (_, value) :: rest => max value.depth (depthMembers rest)

end

variable {item : Value} {items : List Value} {name : String} {members : List (String × Value)}

theorem depth_lt_array (h : item ∈ items) : item.depth < (array items).depth := by
  rw [depth, Nat.lt_add_one_iff]
  induction items with
  | nil => simp at h
  | cons first items ih =>
    rw [depthAll]
    rcases List.mem_cons.mp h with rfl | h
    · exact Nat.le_max_left _ _
    · exact Nat.le_trans (ih h) (Nat.le_max_right _ _)

theorem depth_lt_object (h : (name, item) ∈ members) : item.depth < (object members).depth := by
  rw [depth, Nat.lt_add_one_iff]
  induction members with
  | nil => simp at h
  | cons first members ih =>
    rw [depthMembers]
    rcases List.mem_cons.mp h with rfl | h
    · exact Nat.le_max_left _ _
    · exact Nat.le_trans (ih h) (Nat.le_max_right _ _)

end Value

namespace Document

mutual

theorem depth_le_of_value? : ∀ {levels : Nat} {document : Document} {value : Value},
    document.value? levels = some value → value.depth ≤ levels
  | _, .null, _, h | _, .bool _, _, h => by
    obtain rfl := Option.some.inj h
    exact Nat.zero_le _
  | _, .number _, _, h => by
    obtain ⟨n, -, rfl⟩ := Option.map_eq_some_iff.mp h
    exact Nat.zero_le _
  | _, .text _, _, h => by
    obtain ⟨s, -, rfl⟩ := Option.map_eq_some_iff.mp h
    exact Nat.zero_le _
  | _ + 1, .array items true, _, h => by
    obtain ⟨values, hvalues, rfl⟩ := Option.map_eq_some_iff.mp h
    exact Nat.succ_le_succ (depthAll_le_of_values? hvalues)
  | _ + 1, .object members true, _, h => by
    obtain ⟨values, hvalues, rfl⟩ := Option.map_eq_some_iff.mp h
    exact Nat.succ_le_succ (depthMembers_le_of_values? hvalues)

private theorem depthAll_le_of_values? :
    ∀ {levels : Nat} {items : List Document} {values : List Value},
    itemValues? levels items = some values → Value.depthAll values ≤ levels
  | _, [], _, h => by
    rw [← Option.some.inj h]
    exact Nat.zero_le _
  | _, item :: rest, _, h => by
    obtain ⟨value, hvalue, hrest⟩ := Option.bind_eq_some_iff.mp h
    obtain ⟨values, hvalues, hall⟩ := Option.bind_eq_some_iff.mp hrest
    rw [← Option.some.inj hall]
    exact Nat.max_le.mpr ⟨depth_le_of_value? hvalue, depthAll_le_of_values? hvalues⟩

private theorem depthMembers_le_of_values? :
    ∀ {levels : Nat} {members : List (Option String × Document)} {values : List (String × Value)},
    memberValues? levels members = some values → Value.depthMembers values ≤ levels
  | _, [], _, h => by
    rw [← Option.some.inj h]
    exact Nat.zero_le _
  | _, (key, document) :: rest, _, h => by
    obtain ⟨name, -, hmember⟩ := Option.bind_eq_some_iff.mp h
    obtain ⟨value, hvalue, hrest⟩ := Option.bind_eq_some_iff.mp hmember
    obtain ⟨values, hvalues, hall⟩ := Option.bind_eq_some_iff.mp hrest
    rw [← Option.some.inj hall]
    exact Nat.max_le.mpr ⟨depth_le_of_value? hvalue, depthMembers_le_of_values? hvalues⟩

end

end Document

end Advisor.Json
