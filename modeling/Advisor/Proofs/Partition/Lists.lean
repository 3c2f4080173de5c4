import Advisor.Partition
import Mathlib.Data.List.Nodup

/-!
# Lists of the latest entries

A list holds, of every name that belongs into it, the latest entry, and stands in the order of a
place given to each name. Adding an entry that is now the latest of its name keeps this, whether the
name is new to the list, stays where it is or leaves for another list.
-/

namespace Advisor.Partition

section Entries

variable {α : Type} {name : α → String} {new : α} {entries : List α}

private theorem mem_overwrite_of_ne {a : α} (h : name a ≠ name new) :
    a ∈ overwrite name new entries ↔ a ∈ entries := by
  have hne : a ≠ new := by rintro rfl; exact h rfl
  induction entries with
  | nil => rfl
  | cons old rest ih =>
    rw [overwrite]
    split
    · next hold =>
      have hne' : a ≠ old := by rintro rfl; exact h hold
      simp [hne, hne']
    · simp [ih]

private theorem mem_overwrite_of_eq {a : α} (unique : (entries.map name).Nodup)
    (found : ∃ old ∈ entries, name old = name new) (h : name a = name new) :
    a ∈ overwrite name new entries ↔ a = new := by
  induction entries with
  | nil => simp at found
  | cons old rest ih =>
    rw [List.map_cons, List.nodup_cons] at unique
    rw [overwrite]
    split
    · next hold =>
      have absent : a ∉ rest := by
        intro ha
        exact unique.1 (List.mem_map.mpr ⟨a, ha, h.trans hold.symm⟩)
      simp [absent]
    · next hold =>
      have hne : a ≠ old := by rintro rfl; exact hold h
      obtain ⟨b, hb, hname⟩ := found
      have found' : ∃ b ∈ rest, name b = name new := by
        rcases List.mem_cons.mp hb with rfl | hb
        · exact absurd hname hold
        · exact ⟨b, hb, hname⟩
      simp [hne, ih unique.2 found']

private theorem mem_eraseP_name {a : α} {n : String} (unique : (entries.map name).Nodup) :
    a ∈ entries.eraseP (name · = n) ↔ a ∈ entries ∧ name a ≠ n := by
  induction entries with
  | nil => simp
  | cons old rest ih =>
    rw [List.map_cons, List.nodup_cons] at unique
    by_cases hold : name old = n
    · have absent : ∀ b ∈ rest, name b ≠ n := by
        intro b hb hn
        exact unique.1 (List.mem_map.mpr ⟨b, hb, hn.trans hold.symm⟩)
      rw [List.eraseP_cons_of_pos (by simpa using hold)]
      constructor
      · intro ha
        exact ⟨List.mem_cons_of_mem _ ha, absent a ha⟩
      · rintro ⟨ha, hn⟩
        rcases List.mem_cons.mp ha with rfl | ha
        · exact absurd hold hn
        · exact ha
    · rw [List.eraseP_cons_of_neg (by simpa using hold), List.mem_cons, List.mem_cons, ih unique.2]
      constructor
      · rintro (rfl | h)
        · exact ⟨Or.inl rfl, hold⟩
        · exact ⟨Or.inr h.1, h.2⟩
      · rintro ⟨rfl | h, hn⟩
        · exact Or.inl rfl
        · exact Or.inr ⟨h, hn⟩

end Entries

/-- The list holds the latest entry of each name, if it is of the kind, and stands in the order of
the places of the names. -/
structure Lists {α : Type} (name : α → String) (latest : String → Option α)
    (place : String → Nat) (kind : α → Prop) (entries : List α) : Prop where
  mem_iff : ∀ a, a ∈ entries ↔ latest (name a) = some a ∧ kind a
  ordered : entries.Pairwise fun a b => place (name a) < place (name b)

namespace Lists

variable {α : Type} {name : α → String} {latest latest' : String → Option α}
  {place place' : String → Nat} {kind : α → Prop} {entries : List α} {new : α}

theorem nodup_names (h : Lists name latest place kind entries) : (entries.map name).Nodup := by
  rw [List.Nodup, List.pairwise_map]
  apply h.ordered.imp
  intro a b hlt heq
  rw [heq] at hlt
  exact Nat.lt_irrefl _ hlt

theorem concat (h : Lists name latest place kind entries) (hkind : kind new)
    (fresh : ∀ a ∈ entries, name a ≠ name new)
    (hlatest : ∀ n, latest' n = if n = name new then some new else latest n)
    (hplace : ∀ n, n ≠ name new → place' n = place n)
    (hend : ∀ a ∈ entries, place (name a) < place' (name new)) :
    Lists name latest' place' kind (entries ++ [new]) := by
  constructor
  · intro a
    rw [List.mem_append, List.mem_singleton, hlatest, h.mem_iff]
    split
    · next hname =>
      have absent : ¬ (latest (name a) = some a ∧ kind a) :=
        fun ha => fresh a ((h.mem_iff a).mpr ha) hname
      constructor
      · rintro (ha | rfl)
        · exact absurd ha absent
        · exact ⟨rfl, hkind⟩
      · rintro ⟨ha, -⟩
        exact Or.inr (Option.some.inj ha).symm
    · next hname =>
      have hne : a ≠ new := by rintro rfl; exact hname rfl
      simp [hne]
  · rw [List.pairwise_append]
    refine ⟨?_, List.pairwise_singleton _ _, ?_⟩
    · apply h.ordered.imp_of_mem
      intro a b ha hb hlt
      rw [hplace _ (fresh a ha), hplace _ (fresh b hb)]
      exact hlt
    · intro a ha b hb
      rw [List.mem_singleton.mp hb, hplace _ (fresh a ha)]
      exact hend a ha

theorem overwrite (h : Lists name latest place kind entries) (hkind : kind new)
    (found : ∃ old ∈ entries, name old = name new)
    (hlatest : ∀ n, latest' n = if n = name new then some new else latest n)
    (hplace : ∀ n, place' n = place n) :
    Lists name latest' place' kind (overwrite name new entries) := by
  constructor
  · intro a
    rw [hlatest]
    split
    · next hname =>
      rw [mem_overwrite_of_eq h.nodup_names found hname]
      constructor
      · rintro rfl
        exact ⟨rfl, hkind⟩
      · rintro ⟨ha, -⟩
        exact (Option.some.inj ha).symm
    · next hname =>
      rw [mem_overwrite_of_ne hname, h.mem_iff]
  · rw [← List.pairwise_map (R := fun m n => place' m < place' n), map_overwrite, List.pairwise_map]
    simpa only [hplace] using h.ordered

theorem eraseP (h : Lists name latest place kind entries) (hkind : ¬ kind new)
    (hlatest : ∀ n, latest' n = if n = name new then some new else latest n)
    (hplace : ∀ n, n ≠ name new → place' n = place n) :
    Lists name latest' place' kind (entries.eraseP (name · = name new)) := by
  constructor
  · intro a
    rw [mem_eraseP_name h.nodup_names, hlatest, h.mem_iff]
    split
    · next hname =>
      constructor
      · rintro ⟨-, hne⟩
        exact absurd hname hne
      · rintro ⟨ha, hk⟩
        exact absurd (Option.some.inj ha ▸ hk) hkind
    · next hname => simp [hname]
  · have hsub : (entries.eraseP (name · = name new)).Sublist entries := List.eraseP_sublist
    apply (h.ordered.sublist hsub).imp_of_mem
    intro a b ha hb hlt
    rw [hplace _ ((mem_eraseP_name h.nodup_names).mp ha).2,
      hplace _ ((mem_eraseP_name h.nodup_names).mp hb).2]
    exact hlt

theorem congr (h : Lists name latest place kind entries)
    (hlatest : ∀ a, latest' (name a) = some a ∧ kind a ↔ latest (name a) = some a ∧ kind a)
    (hplace : ∀ a ∈ entries, place' (name a) = place (name a)) :
    Lists name latest' place' kind entries := by
  constructor
  · intro a
    rw [h.mem_iff, hlatest]
  · apply h.ordered.imp_of_mem
    intro a b ha hb hlt
    rwa [hplace a ha, hplace b hb]

/-- Of a name whose latest entry is of the kind the list holds just this one. -/
theorem count_eq_one (h : Lists name latest place kind entries) {a : α}
    (ha : latest (name a) = some a) (hkind : kind a) : (entries.map name).count (name a) = 1 :=
  List.count_eq_one_of_mem h.nodup_names (List.mem_map_of_mem ((h.mem_iff a).mpr ⟨ha, hkind⟩))

theorem count_eq_zero (h : Lists name latest place kind entries) {n : String}
    (absent : ∀ a, latest n = some a → ¬ kind a) : (entries.map name).count n = 0 := by
  rw [List.count_eq_zero, List.mem_map]
  rintro ⟨a, ha, rfl⟩
  obtain ⟨hlatest, hkind⟩ := (h.mem_iff a).mp ha
  exact absent a hlatest hkind

end Lists

end Advisor.Partition
