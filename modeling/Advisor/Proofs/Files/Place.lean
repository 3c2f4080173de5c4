import Advisor.Files.Store
import Mathlib.Data.List.DropRight

/-!
# Where paths lead

In a tree without links the location that a path leads to can be told from its pieces. The directories
around a path are named by its pieces up to one behind which it goes on.
-/

namespace Advisor.Files.Path

section Pieces

private theorem split_eq_singleton {s : List Char} (h : '/' ∉ s) : split s = [s] := by
  induction s with
  | nil => rfl
  | cons c rest ih =>
    simp only [List.mem_cons, not_or] at h
    rw [split, if_neg (Ne.symm h.1), ih h.2]

private theorem split_append_slash {p : List Char} (rest : List Char) (h : '/' ∉ p) :
    split (p ++ '/' :: rest) = p :: split rest := by
  induction p with
  | nil => rw [List.nil_append, split, if_pos rfl]
  | cons c p ih =>
    simp only [List.mem_cons, not_or] at h
    rw [List.cons_append, split, if_neg (Ne.symm h.1), ih h.2]

private theorem slash_not_mem_of_mem_pieces {path p : String} (h : p ∈ pieces path) :
    '/' ∉ p.toList := by
  obtain ⟨cs, hcs, rfl⟩ := List.mem_map.mp h
  rw [String.toList_ofList]
  exact slash_not_mem_of_mem_split hcs

private theorem pieces_join {ps : List String} (hne : ps ≠ []) (h : ∀ p ∈ ps, '/' ∉ p.toList) :
    pieces (Text.join "/" ps) = ps := by
  induction ps with
  | nil => exact absurd rfl hne
  | cons p ps ih =>
    obtain ⟨hp, hps⟩ := List.forall_mem_cons.mp h
    cases ps with
    | nil => simp [Text.join, pieces, split_eq_singleton hp]
    | cons q ps =>
      have hsplit : pieces (p ++ "/" ++ Text.join "/" (q :: ps))
          = p :: pieces (Text.join "/" (q :: ps)) := by
        simp [pieces, split_append_slash _ hp]
      rw [Text.join, hsplit, ih (List.cons_ne_nil q ps) hps]

theorem join_pieces (path : String) : Text.join "/" (pieces path) = path := by
  have hjoin (s : List Char) : (Text.join "/" ((split s).map String.ofList)).toList = s := by
    induction s with
    | nil => rfl
    | cons c rest ih =>
      obtain ⟨p, ps, hrest⟩ := List.exists_cons_of_ne_nil (split_ne_nil rest)
      rw [hrest] at ih
      by_cases hc : c = '/'
      · rw [split, if_pos hc, hrest, hc]
        simpa [Text.join] using ih
      · rw [split, if_neg hc, hrest]
        cases ps with
        | nil => simpa [Text.join] using ih
        | cons q ps => simpa [Text.join] using ih
  exact String.toList_inj.mp (hjoin path.toList)

theorem exists_append_of_pieces {path : String} {ps rest : List String}
    (h : pieces path = ps ++ rest) : ∃ more, path = Text.join "/" ps ++ more := by
  have hjoin (ps rest : List String) :
      ∃ more, Text.join "/" (ps ++ rest) = Text.join "/" ps ++ more := by
    induction ps with
    | nil => exact ⟨Text.join "/" rest, by simp [Text.join]⟩
    | cons p ps ih =>
      obtain ⟨more, hmore⟩ := ih
      cases ps with
      | cons q ps =>
        have hcons (rest : List String) : Text.join "/" (p :: q :: rest)
            = p ++ "/" ++ Text.join "/" (q :: rest) := rfl
        refine ⟨more, ?_⟩
        rw [List.cons_append, List.cons_append, hcons, hcons, ← List.cons_append, hmore]
        simp only [String.append_assoc]
      | nil =>
        cases rest with
        | nil => exact ⟨"", by simp⟩
        | cons q rest =>
          refine ⟨"/" ++ Text.join "/" (q :: rest), ?_⟩
          rw [List.singleton_append, Text.join, Text.join, String.append_assoc]
  obtain ⟨more, hmore⟩ := hjoin ps rest
  exact ⟨more, by rw [← hmore, ← h, join_pieces]⟩

private theorem isAbsolute_eq_true_iff {path : String} :
    isAbsolute path = true ↔ ∃ q ps, pieces path = "" :: q :: ps := by
  rw [isAbsolute, decide_eq_true_iff, pieces]
  cases path.toList with
  | nil => simp [split]
  | cons c rest =>
    obtain ⟨q, ps, hrest⟩ := List.exists_cons_of_ne_nil (split_ne_nil rest)
    by_cases hc : c = '/'
    · simp [split, hc, hrest]
    · simp [split, hc, hrest]

private theorem getLast?_split_eq_nil {s : List Char} (h : (split s).getLast? = some []) :
    s = [] ∨ s.getLast? = some '/' := by
  induction s with
  | nil => exact Or.inl rfl
  | cons c rest ih =>
    obtain ⟨p, ps, hrest⟩ := List.exists_cons_of_ne_nil (split_ne_nil rest)
    right
    by_cases hc : c = '/'
    · rw [split, if_pos hc, hrest, List.getLast?_cons_cons, ← hrest] at h
      rcases ih h with rfl | hlast
      · rw [hc]
        rfl
      · rw [List.getLast?_cons, hlast]
        rfl
    · rw [split, if_neg hc, hrest] at h
      cases ps with
      | nil => simp at h
      | cons q ps =>
        rw [List.getLast?_cons_cons, ← List.getLast?_cons_cons (a := p), ← hrest] at h
        rcases ih h with rfl | hlast
        · simp [split] at hrest
        · rw [List.getLast?_cons, hlast]
          rfl

private theorem split_append (s rest : List Char) :
    split (s ++ '/' :: rest) = split s ++ split rest := by
  induction s with
  | nil => simp [split]
  | cons c s ih =>
    obtain ⟨p, ps, hs⟩ := List.exists_cons_of_ne_nil (split_ne_nil s)
    rw [List.cons_append, split, split, ih, hs]
    split <;> rfl

theorem endsInSlash_eq_false {path p : String} (h : (pieces path).getLast? = some p) (hp : p ≠ "") :
    endsInSlash path = false := by
  refine decide_eq_false fun hslash => hp ?_
  obtain ⟨s, hs⟩ := List.getLast?_eq_some_iff.mp hslash
  rw [pieces, hs, split_append] at h
  simpa [split] using h.symm

theorem withoutSlashes_pieces {path : String} (hne : path ≠ "") (h : endsInSlash path = false) :
    withoutSlashes (pieces path) = pieces path := by
  refine List.rdropWhile_eq_self_iff.mpr fun hpieces hempty => ?_
  have hlast : (pieces path).getLast? = some "" := by
    rw [List.getLast?_eq_some_getLast hpieces, of_decide_eq_true hempty]
  rw [pieces, List.getLast?_map, Option.map_eq_some_iff] at hlast
  obtain ⟨p, hp, hofList⟩ := hlast
  rw [show p = [] by simpa using hofList] at hp
  rcases getLast?_split_eq_nil hp with hnil | hslash
  · exact hne (by simpa using hnil)
  · rw [endsInSlash, hslash] at h
    simp at h

end Pieces

section Outward

private theorem outward_suffix {rs l : List String} (h : l ∈ outward rs) :
    (∃ front, rs = front ++ l) ∧ l ≠ [] ∧ l ≠ [""] := by
  induction rs with
  | nil => simp [outward] at h
  | cons p rs ih =>
    cases rs with
    | nil =>
      rw [outward] at h
      split at h
      · exact absurd h List.not_mem_nil
      · next hp =>
        rw [List.mem_singleton.mp h]
        exact ⟨⟨[], rfl⟩, List.cons_ne_nil p [], fun hslash => hp (List.head_eq_of_cons_eq hslash)⟩
    | cons q rs =>
      have hinner (h : l ∈ outward (q :: rs)) :
          (∃ front, p :: q :: rs = front ++ l) ∧ l ≠ [] ∧ l ≠ [""] := by
        obtain ⟨⟨front, hfront⟩, hne⟩ := ih h
        exact ⟨⟨p :: front, by rw [hfront, List.cons_append]⟩, hne⟩
      rw [outward] at h
      split at h
      · exact hinner h
      · rcases List.mem_cons.mp h with rfl | h
        · exact ⟨⟨[], rfl⟩, List.cons_ne_nil p _, by simp⟩
        · exact hinner h

private theorem exists_append_of_mem_tail_outward {rs l : List String} (h : l ∈ (outward rs).tail) :
    ∃ front, rs = front ++ l ∧ ∃ p ∈ front, isIdle p = false := by
  induction rs with
  | nil => simp [outward] at h
  | cons p rs ih =>
    cases rs with
    | nil =>
      rw [outward] at h
      split at h <;> exact absurd h List.not_mem_nil
    | cons q rs =>
      rw [outward] at h
      split at h
      · obtain ⟨front, hfront, r, hr, hidle⟩ := ih h
        exact ⟨p :: front, by rw [hfront, List.cons_append], r, List.mem_cons_of_mem p hr, hidle⟩
      · next hp =>
        obtain ⟨⟨front, hfront⟩, -⟩ := outward_suffix h
        exact ⟨p :: front, by rw [hfront, List.cons_append], p, List.mem_cons_self,
          eq_false_of_ne_true hp⟩

end Outward

/-- Where a piece leads from a location. -/
def follow (here : Location) (piece : String) : Location :=
  if isIdle piece then here else if piece = ".." then here.dropLast else here ++ [piece]

theorem follow_name {here : Location} {name : String} (h : isIdle name = false ∧ name ≠ "..") :
    follow here name = here ++ [name] := by
  rw [follow, h.1, if_neg Bool.false_ne_true, if_neg h.2]

/-- Where pieces lead one after the other. -/
def goal (origin : Location) (ps : List String) : Location := ps.foldl follow origin

/-- Where a path starts. -/
def origin (working : Location) (path : String) : Location :=
  if isAbsolute path then [] else working

/-- Where a path leads. -/
def place (working : Location) (path : String) : Location :=
  goal (origin working path) (pieces path)

/-- The path comes through the location and goes on from it. -/
def Passes (working : Location) (path : String) (l : Location) : Prop :=
  ∃ ps rest, pieces path = ps ++ rest ∧ (∃ p ∈ rest, isIdle p = false) ∧
    l = goal (origin working path) ps

theorem goal_append (here : Location) (ps qs : List String) :
    goal here (ps ++ qs) = goal (goal here ps) qs :=
  List.foldl_append

theorem goal_withoutSlashes (here : Location) (ps : List String) :
    goal here (withoutSlashes ps) = goal here ps := by
  have hsplit : ps = withoutSlashes ps ++ (ps.reverse.takeWhile (· = "")).reverse := by
    rw [withoutSlashes, ← List.reverse_append, List.takeWhile_append_dropWhile,
      List.reverse_reverse]
  have hidle (qs : List String) (h : ∀ q ∈ qs, q = "") (here : Location) : goal here qs = here := by
    induction qs with
    | nil => rfl
    | cons q qs ih =>
      obtain ⟨rfl, hqs⟩ := List.forall_mem_cons.mp h
      exact ih hqs
  have hend : ∀ q ∈ (ps.reverse.takeWhile (· = "")).reverse, q = "" := by
    intro q hq
    simpa using List.mem_takeWhile_imp (List.mem_reverse.mp hq)
  calc goal here (withoutSlashes ps)
      = goal here (withoutSlashes ps ++ (ps.reverse.takeWhile (· = "")).reverse) := by
        rw [goal_append, hidle _ hend]
    _ = goal here ps := by rw [← hsplit]

/-- A path up to a piece starts where the path does, unless the piece is the root. -/
theorem origin_join (working : Location) {path : String} {ps rest : List String}
    (h : pieces path = ps ++ rest) (hne : ps ≠ []) (hslash : ps ≠ [""]) :
    pieces (Text.join "/" ps) = ps ∧ origin working (Text.join "/" ps) = origin working path := by
  have hpieces : pieces (Text.join "/" ps) = ps :=
    pieces_join hne fun q hq => slash_not_mem_of_mem_pieces (h ▸ List.mem_append_left rest hq)
  have habsolute : isAbsolute (Text.join "/" ps) = isAbsolute path := by
    rw [Bool.eq_iff_iff, isAbsolute_eq_true_iff, isAbsolute_eq_true_iff, hpieces, h]
    match ps with
    | [] => exact absurd rfl hne
    | [p] =>
      have hp : p ≠ "" := fun hp => hslash (by rw [hp])
      simp [hp]
    | p :: q :: ps => simp
  exact ⟨hpieces, by rw [origin, origin, habsolute]⟩

/-- The directories around a path are locations that it comes through. -/
theorem passes_of_mem_directories (working : Location) {path dir : String}
    (h : dir ∈ directories path) : Passes working path (place working dir) := by
  obtain ⟨l, hl, rfl⟩ := List.mem_map.mp h
  obtain ⟨-, hne, hslash⟩ := outward_suffix (List.mem_of_mem_tail hl)
  obtain ⟨front, hfront, p, hp, hidle⟩ := exists_append_of_mem_tail_outward hl
  have hpath : pieces path = l.reverse ++ front.reverse := by
    rw [← List.reverse_append, ← hfront, List.reverse_reverse]
  obtain ⟨hpieces, horigin⟩ := origin_join working hpath (by simpa using hne)
    fun hroot => hslash (by rw [← List.reverse_reverse l, hroot]; rfl)
  refine ⟨l.reverse, front.reverse, hpath, ⟨p, List.mem_reverse.mpr hp, hidle⟩, ?_⟩
  rw [place, horigin, hpieces]

end Advisor.Files.Path
