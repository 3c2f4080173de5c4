import Advisor.Proofs.Files.Place
import Advisor.Proofs.Wire.Field

/-!
# What operations do to a store

A path that is resolved leads to its place, and goes on doing so while the directories stay. Making
a directory and writing a file put one entry at the place of the path.
-/

namespace Advisor.Files.Store

open Advisor.Files.Path Wire

variable {s t : Store} {here l parent : Location} {ps : List String} {path name : String}
  {bytes : ByteArray}

/-- What is a directory in one store is one in the other. -/
def KeepsDirectories (s t : Store) : Prop :=
  ∀ l, s.get? l = some .directory → t.get? l = some .directory

theorem enter_eq_ok : s.enter here = .ok l ↔ s.get? here = some .directory ∧ here = l := by
  rw [enter]
  split <;> simp_all

theorem step_eq_ok {p : String} :
    step here p = .ok l ↔ l = follow here p ∧ p.utf8ByteSize ≤ longestPiece := by
  have hidle (h : isIdle p = true) : p.utf8ByteSize ≤ longestPiece := by
    rcases (by simpa [isIdle] using h : p = "" ∨ p = ".") with rfl | rfl <;> decide
  have hup (h : p = "..") : p.utf8ByteSize ≤ longestPiece := by
    rw [h]
    decide
  rw [step, follow]
  split
  · next h => simp [hidle h, eq_comm]
  · split
    · next h => simp [hup h, eq_comm]
    · split
      · next h => simp [h]
      · next h => simp [Nat.le_of_not_lt h, eq_comm]

/-- Pieces lead somewhere if each is taken from a directory and none is too long. -/
theorem walk_eq_ok : s.walk here ps = .ok l ↔ l = goal here ps ∧
    (∀ p ∈ ps, p.utf8ByteSize ≤ longestPiece) ∧
    ∀ qs p rest, ps = qs ++ p :: rest → s.get? (goal here qs) = some .directory := by
  induction ps generalizing here with
  | nil => simp [walk, goal, eq_comm]
  | cons p ps ih =>
    have hgoal (qs : List String) : goal here (p :: qs) = goal (follow here p) qs := rfl
    simp only [walk, bind_eq_ok, enter_eq_ok, step_eq_ok]
    constructor
    · rintro ⟨_, ⟨hdirectory, rfl⟩, _, ⟨rfl, hshort⟩, hrest⟩
      obtain ⟨rfl, hshorts, hdirectories⟩ := ih.mp hrest
      refine ⟨rfl, List.forall_mem_cons.mpr ⟨hshort, hshorts⟩, fun qs q rest hsplit => ?_⟩
      cases qs with
      | nil => exact hdirectory
      | cons q' qs =>
        obtain ⟨rfl, htail⟩ := List.cons.inj hsplit
        exact hdirectories qs q rest htail
    · rintro ⟨rfl, hshort, hdirectories⟩
      obtain ⟨hp, hps⟩ := List.forall_mem_cons.mp hshort
      refine ⟨here, ⟨hdirectories [] p ps rfl, rfl⟩, _, ⟨rfl, hp⟩, ih.mpr ⟨rfl, hps, ?_⟩⟩
      intro qs q rest hsplit
      rw [← hgoal]
      exact hdirectories (p :: qs) q rest (by rw [hsplit, List.cons_append])

theorem walk_append (s : Store) (here : Location) (ps qs : List String) :
    s.walk here (ps ++ qs) = s.walk here ps >>= fun l => s.walk l qs := by
  induction ps generalizing here with
  | nil => rfl
  | cons p ps ih => simp only [List.cons_append, walk, ih, bind_assoc]

theorem KeepsDirectories.walk (hkeeps : KeepsDirectories s t) (h : s.walk here ps = .ok l) :
    t.walk here ps = .ok l := by
  induction ps generalizing here with
  | nil => exact h
  | cons p ps ih =>
    simp only [Store.walk, bind_eq_ok, enter_eq_ok] at h ⊢
    obtain ⟨dir, ⟨hdirectory, rfl⟩, next, hstep, hrest⟩ := h
    exact ⟨here, ⟨hkeeps here hdirectory, rfl⟩, next, hstep, ih hrest⟩

theorem start_eq_ok : s.start path = .ok l ↔ l = origin s.working path ∧ path ≠ "" ∧
    '\x00' ∉ path.toList ∧ path.utf8ByteSize ≤ longest := by
  rw [start, origin]
  split
  · next hempty => exact iff_of_false (by simp) fun h => h.2.1 hempty
  · next hname =>
    split
    · next hnul => exact iff_of_false (by simp) fun h => h.2.2.1 (List.contains_iff_mem.mp hnul)
    · next hnul =>
      have hproper : '\x00' ∉ path.toList := mt List.contains_iff_mem.mpr hnul
      split
      · next hlong => exact iff_of_false (by simp) fun h => Nat.not_le_of_lt hlong h.2.2.2
      · next hshort =>
        rw [Except.ok.injEq, eq_comm]
        exact ⟨fun h => ⟨h, hname, hproper, Nat.le_of_not_lt hshort⟩, And.left⟩

private theorem start_congr (h : t.working = s.working) (path : String) :
    t.start path = s.start path := by
  rw [start, start, h]

theorem read_eq_ok : s.read path = .ok bytes ↔
    (∃ first, s.start path = .ok first ∧
      s.walk first (pieces path) = .ok (place s.working path)) ∧
    s.get? (place s.working path) = some (.file bytes) := by
  simp only [read, lookup, bind_eq_ok]
  constructor
  · rintro ⟨entry, ⟨first, hstart, l, hwalk, hget⟩, hbytes⟩
    have hl : l = place s.working path := by
      rw [(walk_eq_ok.mp hwalk).1, (start_eq_ok.mp hstart).1, place]
    subst hl
    refine ⟨⟨first, hstart, hwalk⟩, ?_⟩
    cases hentry : s.get? (place s.working path) with
    | none => simp [hentry] at hget
    | some found =>
      obtain rfl : found = entry := by simpa [hentry] using hget
      cases found with
      | directory => simp at hbytes
      | file content => simpa using hbytes
  · rintro ⟨⟨first, hstart, hwalk⟩, hget⟩
    exact ⟨.file bytes, ⟨first, hstart, place s.working path, hwalk, by rw [hget]⟩, rfl⟩

/-- A file reads the same as long as the directories stay. -/
theorem KeepsDirectories.read (hkeeps : KeepsDirectories s t) (hworking : t.working = s.working)
    (hentry : t.get? (place s.working path) = s.get? (place s.working path))
    (h : s.read path = .ok bytes) : t.read path = .ok bytes := by
  obtain ⟨⟨first, hstart, hwalk⟩, hget⟩ := read_eq_ok.mp h
  rw [read_eq_ok, hworking, start_congr hworking]
  exact ⟨⟨first, hstart, hkeeps.walk hwalk⟩, hentry.trans hget⟩

private theorem site_eq_ok (h : s.site path = .ok (parent, some name)) :
    (∃ first, s.start path = .ok first ∧
      s.walk first (withoutSlashes (pieces path)).dropLast = .ok parent) ∧
    s.get? parent = some .directory ∧
    withoutSlashes (pieces path) = (withoutSlashes (pieces path)).dropLast ++ [name] ∧
    (isIdle name = false ∧ name ≠ "..") ∧ place s.working path = parent ++ [name] := by
  simp only [site, bind_eq_ok, enter_eq_ok, pure_eq_ok, Prod.mk.injEq] at h
  obtain ⟨first, hstart, dir, hwalk, dir', ⟨hdirectory, rfl⟩, rfl, hname⟩ := h
  obtain ⟨hlast, hproper⟩ := Option.filter_eq_some_iff.mp hname
  have hpieces := (List.dropLast_append_getLast? name hlast).symm
  simp only [Bool.not_eq_true', Bool.or_eq_false_iff, decide_eq_false_iff_not] at hproper
  refine ⟨⟨first, hstart, hwalk⟩, hdirectory, hpieces, hproper, ?_⟩
  have hplace : place s.working path = follow dir name := by
    rw [place, ← goal_withoutSlashes, hpieces, goal_append, ← (start_eq_ok.mp hstart).1,
      ← (walk_eq_ok.mp hwalk).1]
    rfl
  rw [hplace, follow_name hproper]

theorem makeDirectory_eq_ok (h : s.makeDirectory path = .ok t) :
    t = s.put (place s.working path) .directory ∧
      (∃ parent name, place s.working path = parent ++ [name] ∧ s.get? parent = some .directory) ∧
      s.get? (place s.working path) = none := by
  simp only [makeDirectory, bind_eq_ok, Prod.exists] at h
  obtain ⟨parent, name, hsite, h⟩ := h
  cases name with
  | none => simp at h
  | some name =>
    obtain ⟨-, hdirectory, -, hproper, hplace⟩ := site_eq_ok hsite
    simp only [bind_eq_ok] at h
    obtain ⟨l, hstep, h⟩ := h
    rw [(step_eq_ok.mp hstep).1, follow_name hproper, ← hplace] at h
    cases hget : s.get? (place s.working path) with
    | some entry => simp [hget] at h
    | none =>
      simp only [hget, Except.ok.injEq] at h
      exact ⟨h.symm, ⟨parent, name, hplace, hdirectory⟩, rfl⟩

theorem keepsDirectories_put {e : Entry} (h : s.get? l ≠ some .directory) :
    KeepsDirectories s (s.put l e) := by
  intro k hk
  have hne : k ≠ l := by
    rintro rfl
    exact h hk
  rw [get?_put_of_ne s hne e, hk]

theorem write_eq_ok (h : s.write path bytes = .ok t) :
    t = s.put (place s.working path) (.file bytes) ∧
      (∃ parent name, place s.working path = parent ++ [name] ∧ s.get? parent = some .directory) ∧
      s.get? (place s.working path) ≠ some .directory ∧ t.read path = .ok bytes := by
  simp only [write, bind_eq_ok, Prod.exists] at h
  obtain ⟨parent, name, hsite, h⟩ := h
  cases name with
  | none => simp at h
  | some name =>
    obtain ⟨⟨first, hstart, hwalk⟩, hdirectory, hpieces, hproper, hplace⟩ := site_eq_ok hsite
    simp only at h
    split at h
    · simp at h
    next hslash =>
    simp only [bind_eq_ok] at h
    obtain ⟨l, hstep, h⟩ := h
    rw [(step_eq_ok.mp hstep).1, follow_name hproper, ← hplace] at h
    have hnonempty : place s.working path ≠ [] := by simp [hplace]
    split at h
    · simp at h
    next hentry =>
    obtain rfl : s.put (place s.working path) (.file bytes) = t := Except.ok.inj h
    have hkeeps := keepsDirectories_put (e := .file bytes) hentry
    refine ⟨rfl, ⟨parent, name, hplace, hdirectory⟩, hentry,
      read_eq_ok.mpr ⟨⟨first, hstart, ?_⟩, ?_⟩⟩
    · rw [← withoutSlashes_pieces (start_eq_ok.mp hstart).2.1 (eq_false_of_ne_true hslash), hpieces,
        walk_append, bind_eq_ok]
      refine ⟨parent, hkeeps.walk hwalk, ?_⟩
      simp only [Store.walk, bind_eq_ok, enter_eq_ok]
      exact ⟨parent, ⟨hkeeps parent hdirectory, rfl⟩, place s.working path,
        by rw [hstep, (step_eq_ok.mp hstep).1, follow_name hproper, hplace], rfl⟩
    · exact get?_put_self s hnonempty _

end Advisor.Files.Store
