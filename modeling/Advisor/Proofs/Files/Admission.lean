import Advisor.Files.Environment
import Advisor.Proofs.Files.Effects

/-!
# Where a file can be written

In a tree of files and directories it can be told beforehand whether the directories around a file
can be made and the file can be written. Making goes on from the first piece of the path that is
missing, so nothing but a file can be in its way.
-/

namespace Advisor.Files

namespace Store

open Advisor.Files.Path Wire

/-- The working directory is one, and so is whatever something stands in. -/
structure IsTree (s : Store) : Prop where
  working : s.get? s.working = some .directory
  around : ∀ l name entry, s.get? (l ++ [name]) = some entry → s.get? l = some .directory

/-- The path and its pieces are no longer than the system takes them, and no file is in the way. -/
structure Passable (s : Store) (path : String) : Prop where
  proper : '\x00' ∉ path.toList
  short : path.utf8ByteSize ≤ longest
  shortPieces : ∀ p ∈ pieces path, p.utf8ByteSize ≤ longestPiece
  through : ∀ l bytes, Passes s.working path l → s.get? l ≠ some (.file bytes)

/-- A file can be written at the path, with the directories around it: the path ends in a name, and
leads neither to a directory nor to a place that it comes through. -/
structure Admits (s : Store) (path : String) : Prop extends Passable s path where
  named : ∃ name, (pieces path).getLast? = some name ∧ isIdle name = false ∧ name ≠ ".."
  target : s.get? (place s.working path) ≠ some .directory
  apart : ¬ Passes s.working path (place s.working path)

variable {s t : Store} {path p : String} {qs rest : List String} {bytes : ByteArray}

private theorem ok_bind {α β : Type} (a : α) (f : α → Except Fault β) :
    (Except.ok a >>= f) = f a := rfl

theorem isTree_blank : blank.IsTree := by
  refine ⟨rfl, fun l name entry hget => ?_⟩
  cases l with
  | nil => rfl
  | cons first l => simp [get?, blank] at hget

theorem IsTree.origin (h : s.IsTree) (path : String) :
    s.get? (origin s.working path) = some .directory := by
  rw [Path.origin]
  split
  · rfl
  · exact h.working

theorem IsTree.put (h : s.IsTree) {parent : Location} {name : String} {entry : Entry}
    (hparent : s.get? parent = some .directory)
    (hentry : s.get? (parent ++ [name]) ≠ some .directory) :
    (s.put (parent ++ [name]) entry).IsTree := by
  have hkeeps := keepsDirectories_put (e := entry) hentry
  refine ⟨hkeeps _ h.working, fun l n e hget => hkeeps l ?_⟩
  by_cases hl : l ++ [n] = parent ++ [name]
  · rw [(List.append_inj' hl rfl).1, hparent]
  · rw [get?_put_of_ne s hl] at hget
    exact h.around l n e hget

theorem IsTree.makeDirectory (h : s.IsTree) (hmake : s.makeDirectory path = .ok t) : t.IsTree := by
  obtain ⟨rfl, ⟨parent, name, hplace, hparent⟩, hnone⟩ := makeDirectory_eq_ok hmake
  rw [hplace] at hnone ⊢
  exact h.put hparent (by simp [hnone])

theorem IsTree.write (h : s.IsTree) (hwrite : s.write path bytes = .ok t) : t.IsTree := by
  obtain ⟨rfl, ⟨parent, name, hplace, hparent⟩, hentry, -⟩ := write_eq_ok hwrite
  rw [hplace] at hentry ⊢
  exact h.put hparent hentry

theorem IsTree.follow (h : s.IsTree) {here : Location} (hhere : s.get? here = some .directory)
    (hp : isIdle p = true ∨ p = "..") : s.get? (follow here p) = some .directory := by
  rw [Path.follow]
  split
  · exact hhere
  · next hidle =>
    rw [if_pos (hp.resolve_left hidle)]
    rcases List.eq_nil_or_concat here with rfl | ⟨around, name, rfl⟩
    · rfl
    · rw [List.concat_eq_append] at hhere ⊢
      rw [List.dropLast_concat]
      exact h.around around name .directory hhere

theorem Passable.put (h : s.Passable path) (l : Location) : (s.put l .directory).Passable path := by
  refine ⟨h.proper, h.short, h.shortPieces, fun k bytes hpasses => ?_⟩
  by_cases hk : k = l
  · subst hk
    cases k with
    | nil => simp [get?]
    | cons name around => simp [get?_put_self]
  · rw [get?_put_of_ne s hk]
    exact h.through k bytes hpasses

/-- The pieces are taken from directories and lead to one. -/
def Opens (s : Store) (path : String) (qs : List String) : Prop :=
  ∀ front rest, qs = front ++ rest → s.get? (goal (origin s.working path) front) = some .directory

private theorem opens_nil (h : s.IsTree) (path : String) : s.Opens path [] := by
  intro front rest hsplit
  rw [(List.append_eq_nil_iff.mp hsplit.symm).1]
  exact h.origin path

private theorem opens_concat : s.Opens path (qs ++ [p]) ↔
    s.Opens path qs ∧ s.get? (goal (origin s.working path) (qs ++ [p])) = some .directory := by
  constructor
  · intro h
    refine ⟨fun front rest hsplit => h front (rest ++ [p]) ?_, h (qs ++ [p]) [] (by simp)⟩
    rw [hsplit, List.append_assoc]
  · rintro ⟨hopens, hdirectory⟩ front rest hsplit
    rcases List.eq_nil_or_concat rest with rfl | ⟨rest, q, rfl⟩
    · rwa [← List.append_nil front, ← hsplit]
    · rw [List.concat_eq_append, ← List.append_assoc] at hsplit
      exact hopens front rest (List.append_inj' hsplit rfl).1

theorem Opens.directory (h : s.Opens path qs) :
    s.get? (goal (origin s.working path) qs) = some .directory :=
  h qs [] (List.append_nil qs).symm

theorem Opens.mono (h : s.Opens path qs) (hkeeps : KeepsDirectories s t)
    (hworking : t.working = s.working) : t.Opens path qs := by
  intro front rest hsplit
  rw [hworking]
  exact hkeeps _ (h front rest hsplit)

theorem Opens.walk (h : s.Opens path qs) (hshort : ∀ q ∈ qs, q.utf8ByteSize ≤ longestPiece) :
    s.walk (origin s.working path) qs = .ok (goal (origin s.working path) qs) :=
  walk_eq_ok.mpr ⟨rfl, hshort, fun front q rest hsplit => h front (q :: rest) hsplit⟩

private theorem goal_concat (here : Location) (qs : List String) (p : String) :
    goal here (qs ++ [p]) = Path.follow (goal here qs) p := goal_append here qs [p]

private theorem Opens.enter_walk (h : s.Opens path qs)
    (hshort : ∀ q ∈ qs, q.utf8ByteSize ≤ longestPiece) :
    (s.walk (Path.origin s.working path) qs >>= s.enter)
      = .ok (goal (Path.origin s.working path) qs) := by
  rw [bind_eq_ok]
  exact ⟨_, h.walk hshort, enter_eq_ok.mpr ⟨h.directory, rfl⟩⟩

private theorem enter_walk_concat (s : Store) (here : Location) (qs : List String) (p : String) :
    (s.walk here (qs ++ [p]) >>= s.enter)
      = (s.walk here qs >>= s.enter) >>= fun l => step l p >>= s.enter := by
  simp only [walk_append, bind_assoc, Store.walk]
  rfl

section Beginning

variable (htree : s.IsTree) (hpassable : s.Passable path) (hpieces : pieces path = qs ++ rest)
  (hrest : ∃ p ∈ rest, isIdle p = false)

include hpassable hpieces hrest in
private theorem not_file_of_beginning (bytes : ByteArray) :
    s.get? (goal (origin s.working path) qs) ≠ some (.file bytes) :=
  hpassable.through _ bytes ⟨qs, rest, hpieces, hrest, rfl⟩

include htree hpassable hpieces hrest in
/-- Along the first pieces of a path nothing goes wrong but that something is missing. -/
theorem enter_walk_of_not_opens (h : ¬ s.Opens path qs) :
    (s.walk (origin s.working path) qs >>= s.enter) = .error .missing := by
  induction qs using List.reverseRecOn generalizing rest with
  | nil => exact absurd (opens_nil htree path) h
  | append_singleton qs p ih =>
    have hpieces' : pieces path = qs ++ p :: rest := by simpa using hpieces
    have hfile := not_file_of_beginning hpassable hpieces hrest
    have hshort (q : String) (hq : q ∈ qs ++ [p]) : q.utf8ByteSize ≤ longestPiece :=
      hpassable.shortPieces q (hpieces ▸ List.mem_append_left rest hq)
    rw [enter_walk_concat]
    by_cases hopens : s.Opens path qs
    · have hstep : step (goal (origin s.working path) qs) p
          = .ok (goal (origin s.working path) (qs ++ [p])) :=
        step_eq_ok.mpr ⟨goal_concat _ qs p, hshort p (by simp)⟩
      rw [hopens.enter_walk fun q hq => hshort q (List.mem_append_left _ hq)]
      change (step (goal (origin s.working path) qs) p >>= s.enter) = _
      rw [hstep]
      change s.enter _ = _
      rw [enter]
      cases hget : s.get? (goal (origin s.working path) (qs ++ [p])) with
      | none => rfl
      | some entry =>
        cases entry with
        | directory => exact absurd (opens_concat.mpr ⟨hopens, hget⟩) h
        | file bytes => exact absurd hget (hfile bytes)
    · obtain ⟨r, hr, hidle⟩ := hrest
      rw [ih hpieces' ⟨r, List.mem_cons_of_mem p hr, hidle⟩ hopens]
      rfl

variable (hp : p ≠ "") (hend : pieces path = (qs ++ [p]) ++ rest)

include hp hend in
private theorem origin_beginning (working : Location) :
    pieces (Text.join "/" (qs ++ [p])) = qs ++ [p] ∧
    origin working (Text.join "/" (qs ++ [p])) = origin working path := by
  refine origin_join working hend (by simp) fun hslash => hp ?_
  simpa using congrArg List.getLast? hslash

include hpassable hp hend in
private theorem start_beginning :
    s.start (Text.join "/" (qs ++ [p])) = .ok (origin s.working path) := by
  obtain ⟨hpieces, horigin⟩ := origin_beginning hp hend s.working
  obtain ⟨more, hmore⟩ := exists_append_of_pieces hend
  refine start_eq_ok.mpr ⟨horigin.symm, fun hempty => hp ?_, fun hnul => hpassable.proper ?_, ?_⟩
  · rw [hempty] at hpieces
    simpa [pieces, split] using (congrArg List.getLast? hpieces).symm
  · rw [hmore, String.toList_append]
    exact List.mem_append_left _ hnul
  · refine Nat.le_trans ?_ hpassable.short
    conv_rhs => rw [hmore, String.utf8ByteSize_append]
    exact Nat.le_add_right _ _

include hpassable hp hend in
private theorem site_beginning : s.site (Text.join "/" (qs ++ [p]))
    = (s.walk (origin s.working path) qs >>= s.enter) >>= fun parent =>
        .ok (parent, (some p).filter fun p => !(isIdle p || p = "..")) := by
  have hkept : withoutSlashes (qs ++ [p]) = qs ++ [p] := by
    simp [withoutSlashes, hp]
  rw [site, (origin_beginning hp hend s.working).1, start_beginning hpassable hp hend, hkept,
    List.dropLast_concat, List.getLast?_concat, bind_assoc]
  rfl

include hpassable hp hend in
private theorem lookup_beginning : s.lookup (Text.join "/" (qs ++ [p]))
    = (s.walk (origin s.working path) qs >>= s.enter) >>= fun l => step l p >>= fun l =>
        match s.get? l with
        | none => .error .missing
        | some entry => .ok entry := by
  rw [lookup, (origin_beginning hp hend s.working).1, start_beginning hpassable hp hend]
  change (s.walk _ (qs ++ [p]) >>= _) = _
  simp only [walk_append, bind_assoc, Store.walk]
  rfl

include htree hpassable hp hend hrest in
private theorem refused_of_not_opens (h : ¬ s.Opens path qs) :
    s.makeDirectory (Text.join "/" (qs ++ [p])) = .error .missing ∧
      s.isDirectory (Text.join "/" (qs ++ [p])) = false := by
  obtain ⟨r, hr, hidle⟩ := hrest
  have hbeginning : pieces path = qs ++ p :: rest := by simpa using hend
  have hmissing := enter_walk_of_not_opens htree hpassable hbeginning
    ⟨r, List.mem_cons_of_mem p hr, hidle⟩ h
  constructor
  · rw [makeDirectory, site_beginning hpassable hp hend, hmissing]
    rfl
  · rw [isDirectory, lookup_beginning hpassable hp hend, hmissing]
    rfl

include hpassable hend in
private theorem entered_of_opens (h : s.Opens path qs) :
    (s.walk (origin s.working path) qs >>= s.enter) = .ok (goal (origin s.working path) qs) ∧
      step (goal (origin s.working path) qs) p
        = .ok (goal (origin s.working path) (qs ++ [p])) := by
  have hshort (q : String) (hq : q ∈ qs ++ [p]) : q.utf8ByteSize ≤ longestPiece :=
    hpassable.shortPieces q (hend ▸ List.mem_append_left rest hq)
  exact ⟨h.enter_walk fun q hq => hshort q (List.mem_append_left _ hq),
    step_eq_ok.mpr ⟨goal_concat _ qs p, hshort p (by simp)⟩⟩

include hpassable hp hend in
private theorem site_of_opens (hname : isIdle p = false ∧ p ≠ "..") (h : s.Opens path qs) :
    s.site (Text.join "/" (qs ++ [p])) = .ok (goal (origin s.working path) qs, some p) := by
  rw [site_beginning hpassable hp hend, (entered_of_opens hpassable hend h).1, ok_bind,
    Option.filter_some, if_pos (by simp [hname.1, hname.2])]

include hpassable hp hend in
private theorem present_of_opens (h : s.Opens path (qs ++ [p])) :
    s.makeDirectory (Text.join "/" (qs ++ [p])) = .error .present ∧
      s.isDirectory (Text.join "/" (qs ++ [p])) = true := by
  obtain ⟨hopens, hdirectory⟩ := opens_concat.mp h
  obtain ⟨henter, hstep⟩ := entered_of_opens hpassable hend hopens
  constructor
  · rw [makeDirectory, site_beginning hpassable hp hend, henter]
    simp only [ok_bind]
    by_cases hname : (!(isIdle p || p = "..")) = true
    · rw [Option.filter_some, if_pos hname]
      simp only [hstep, ok_bind, hdirectory]
    · rw [Option.filter_some, if_neg hname]
  · rw [isDirectory, lookup_beginning hpassable hp hend, henter]
    simp only [ok_bind, hstep, hdirectory]

include htree hpassable hp hend hrest in
private theorem made_of_opens (h : s.Opens path qs) (hnot : ¬ s.Opens path (qs ++ [p])) :
    ∃ t, s.makeDirectory (Text.join "/" (qs ++ [p])) = .ok t ∧ t.Passable path ∧
      t.Opens path (qs ++ [p]) := by
  have hdirectory : s.get? (goal (origin s.working path) (qs ++ [p])) ≠ some .directory :=
    fun hget => hnot (opens_concat.mpr ⟨h, hget⟩)
  have hnone : s.get? (goal (origin s.working path) (qs ++ [p])) = none := by
    cases hget : s.get? (goal (origin s.working path) (qs ++ [p])) with
    | none => rfl
    | some entry =>
      cases entry with
      | directory => exact absurd hget hdirectory
      | file bytes => exact absurd hget (not_file_of_beginning hpassable hend hrest bytes)
  have hname : isIdle p = false ∧ p ≠ ".." := by
    by_contra hother
    refine hdirectory ?_
    rw [goal_concat]
    exact htree.follow h.directory (by grind)
  have hgoal : goal (origin s.working path) (qs ++ [p]) ≠ [] := by
    intro hroot
    rw [hroot] at hnone
    simp [get?] at hnone
  refine ⟨s.put (goal (origin s.working path) (qs ++ [p])) .directory, ?_, hpassable.put _, ?_⟩
  · rw [makeDirectory, site_of_opens hpassable hp hend hname h]
    simp only [ok_bind, (entered_of_opens hpassable hend h).2, hnone]
  · exact opens_concat.mpr ⟨h.mono (keepsDirectories_put hdirectory) rfl, get?_put_self s hgoal _⟩

include hpassable in
theorem write_of_opens (hpieces : pieces path = qs ++ [p]) (hname : isIdle p = false ∧ p ≠ "..")
    (hopens : s.Opens path qs) (htarget : s.get? (place s.working path) ≠ some .directory) :
    s.write path bytes = .ok (s.put (place s.working path) (.file bytes)) := by
  have hp : p ≠ "" := by
    rintro rfl
    exact absurd hname.1 (by decide)
  have hend : pieces path = (qs ++ [p]) ++ [] := by rw [hpieces, List.append_nil]
  have hpath : Text.join "/" (qs ++ [p]) = path := hpieces ▸ join_pieces path
  have hslash : endsInSlash path = false :=
    endsInSlash_eq_false (p := p) (by simp [hpieces]) hp
  have hplace : goal (origin s.working path) (qs ++ [p]) = place s.working path := by
    rw [place, hpieces]
  have hsite := site_of_opens hpassable hp hend hname hopens
  rw [hpath] at hsite
  rw [write, hsite, ok_bind]
  simp only [hslash, (entered_of_opens hpassable hend hopens).2, hplace, ok_bind,
    Bool.false_eq_true, if_false]

end Beginning

/-- Where a file can be read, one can be written. -/
theorem IsTree.admits (h : s.IsTree) (hread : s.read path = .ok bytes) : s.Admits path := by
  obtain ⟨⟨first, hstart, hwalk⟩, hget⟩ := read_eq_ok.mp hread
  obtain ⟨rfl, -, hproper, hshort⟩ := start_eq_ok.mp hstart
  obtain ⟨-, hpieces, hdirectories⟩ := walk_eq_ok.mp hwalk
  have hpasses (l : Location) (hl : Passes s.working path l) : s.get? l = some .directory := by
    obtain ⟨front, rest, hsplit, ⟨p, hp, -⟩, rfl⟩ := hl
    obtain ⟨q, rest, rfl⟩ := List.exists_cons_of_ne_nil (List.ne_nil_of_mem hp)
    exact hdirectories front q rest hsplit
  refine ⟨⟨hproper, hshort, hpieces, fun l content hl => ?_⟩, ?_, ?_, fun hplace => ?_⟩
  · simp [hpasses l hl]
  · obtain ⟨front, name, hsplit⟩ := (List.eq_nil_or_concat (pieces path)).resolve_left
      (by simpa [pieces] using split_ne_nil path.toList)
    rw [List.concat_eq_append] at hsplit
    refine ⟨name, by simp [hsplit], ?_⟩
    by_contra hother
    have hdirectory := h.follow (hdirectories front name [] hsplit) (p := name) (by grind)
    rw [← goal_concat, ← hsplit, ← place, hget] at hdirectory
    simp at hdirectory
  · simp [hget]
  · simp [hpasses _ hplace] at hget

end Store

namespace Session

open Advisor.Files.Path Store Wire

theorem run_bind {α β : Type} (question : StateM Session α) (next : α → StateM Session β)
    (session : Session) : (question >>= next).run session
      = (next (question.run session).1).run (question.run session).2 := rfl

theorem run_ensureDirectory (path : String) (session : Session) :
    (ensureDirectory path : StateM Session (Except Fault Unit)).run session =
      match session.store.makeDirectory path with
      | .ok store => (.ok (), { session with store })
      | .error e => (if session.store.isDirectory path then .ok () else .error e, session) := by
  have hmake : (Environment.makeDirectory path : StateM Session (Except Fault Unit)).run session
      = session.advance (·.makeDirectory path) := rfl
  rw [ensureDirectory, run_bind, hmake, advance]
  cases session.store.makeDirectory path <;> rfl

theorem run_ensureDirectories_cons (dir : String) (around : List String) (session : Session) :
    (ensureDirectories (dir :: around) : StateM Session (Except Fault Unit)).run session =
      match (ensureDirectory dir : StateM Session (Except Fault Unit)).run session with
      | (.error .missing, after) =>
        match (ensureDirectories around : StateM Session (Except Fault Unit)).run after with
        | (.error e, after) => (.error e, after)
        | (.ok (), after) => (ensureDirectory dir : StateM Session (Except Fault Unit)).run after
      | made => made := by
  rw [ensureDirectories, run_bind]
  generalize (ensureDirectory dir : StateM Session (Except Fault Unit)).run session = made
  obtain ⟨e | ⟨⟩, after⟩ := made
  · cases e with
    | missing =>
      dsimp only
      rw [run_bind]
      generalize (ensureDirectories around : StateM Session (Except Fault Unit)).run after = made
      obtain ⟨_ | ⟨⟩, after⟩ := made <;> rfl
    | _ => rfl
  · rfl

/-- The session goes on with a store in which the pieces lead to a directory. -/
def Makes (path : String) (qs : List String) (session : Session)
    (made : Except Fault Unit × Session) : Prop :=
  ∃ store, made = (.ok (), { session with store }) ∧ store.IsTree ∧ store.Passable path ∧
    store.Opens path qs

variable {path p : String} {qs rest : List String} {session : Session}

private theorem makes_ensureDirectory (htree : session.store.IsTree)
    (hpassable : session.store.Passable path) (hp : p ≠ "")
    (hend : pieces path = (qs ++ [p]) ++ rest) (hrest : ∃ p ∈ rest, isIdle p = false)
    (h : session.store.Opens path qs) : Makes path (qs ++ [p]) session
      ((ensureDirectory (Text.join "/" (qs ++ [p])) : StateM Session (Except Fault Unit)).run
        session) := by
  by_cases hopens : session.store.Opens path (qs ++ [p])
  · obtain ⟨hmake, hdirectory⟩ := present_of_opens hpassable hp hend hopens
    refine ⟨session.store, ?_, htree, hpassable, hopens⟩
    rw [run_ensureDirectory, hmake]
    simp only [hdirectory, if_true]
  · obtain ⟨store, hmake, hpassable', hopens'⟩ :=
      made_of_opens htree hpassable hrest hp hend h hopens
    refine ⟨store, ?_, htree.makeDirectory hmake, hpassable', hopens'⟩
    rw [run_ensureDirectory, hmake]

private theorem outward_cons (p : String) (rs : List String) :
    isIdle p = true ∧ outward (p :: rs) = outward rs ∨
      p ≠ "" ∧ outward (p :: rs) = (p :: rs) :: outward rs := by
  have hempty (hidle : ¬ isIdle p = true) : p ≠ "" := by
    rintro rfl
    exact hidle rfl
  cases rs with
  | nil =>
    by_cases hp : p = ""
    · exact .inl (by simp [hp, isIdle, outward])
    · exact .inr (by simp [hp, outward])
  | cons q rs =>
    by_cases hidle : isIdle p = true
    · exact .inl ⟨hidle, by rw [outward, if_pos hidle]⟩
    · exact .inr ⟨hempty hidle, by rw [outward, if_neg hidle]⟩

/-- By induction on the pieces from the last one on: the first directory is made at once, or it is
made after those around it. -/
theorem makes_ensureDirectories {rs : List String} (htree : session.store.IsTree)
    (hpassable : session.store.Passable path) (hpieces : pieces path = rs.reverse ++ rest)
    (hrest : ∃ p ∈ rest, isIdle p = false) : Makes path rs.reverse session
      ((ensureDirectories ((outward rs).map fun ps => Text.join "/" ps.reverse) :
        StateM Session (Except Fault Unit)).run session) := by
  induction rs generalizing rest with
  | nil => exact ⟨session.store, rfl, htree, hpassable, opens_nil htree path⟩
  | cons p rs ih =>
    have hbeginning : pieces path = rs.reverse ++ p :: rest := by simpa using hpieces
    obtain ⟨r, hr, hidle⟩ := hrest
    have haround := ih hbeginning ⟨r, List.mem_cons_of_mem p hr, hidle⟩
    rw [List.reverse_cons] at hpieces ⊢
    obtain ⟨hp, houtward⟩ | ⟨hp, houtward⟩ := outward_cons p rs
    · obtain ⟨store, hmade, htree', hpassable', hopens⟩ := haround
      refine ⟨store, by rw [houtward, hmade], htree', hpassable', opens_concat.mpr ⟨hopens, ?_⟩⟩
      rw [goal_concat, follow, if_pos hp]
      exact hopens.directory
    · rw [houtward, List.map_cons, List.reverse_cons, run_ensureDirectories_cons]
      by_cases hopens : session.store.Opens path rs.reverse
      · obtain ⟨store, hmade, hstore⟩ :=
          makes_ensureDirectory htree hpassable hp hpieces ⟨r, hr, hidle⟩ hopens
        rw [hmade]
        exact ⟨store, rfl, hstore⟩
      · obtain ⟨hmake, hdirectory⟩ :=
          refused_of_not_opens htree hpassable ⟨r, hr, hidle⟩ hp hpieces hopens
        obtain ⟨between, hbetween, htree', hpassable', hopens'⟩ := haround
        rw [run_ensureDirectory, hmake]
        simp only [hdirectory, Bool.false_eq_true, if_false, hbetween]
        have hagain : Makes path (rs.reverse ++ [p]) { session with store := between } _ :=
          makes_ensureDirectory htree' hpassable' hp hpieces ⟨r, hr, hidle⟩ hopens'
        obtain ⟨store, hmade, hstore⟩ := hagain
        exact ⟨store, hmade, hstore⟩

theorem makes_directories {name : String} (htree : session.store.IsTree)
    (hpassable : session.store.Passable path) (hpieces : pieces path = qs ++ [name])
    (hname : isIdle name = false) : Makes path qs session
      ((ensureDirectories (directories path) : StateM Session (Except Fault Unit)).run session) := by
  have hdirectories : directories path
      = (outward qs.reverse).map fun ps => Text.join "/" ps.reverse := by
    obtain ⟨hidle, -⟩ | ⟨-, houtward⟩ := outward_cons name qs.reverse
    · simp [hname] at hidle
    · rw [directories, hpieces, List.reverse_append, List.reverse_singleton, List.singleton_append,
        houtward, List.tail_cons]
  have hsplit : pieces path = qs.reverse.reverse ++ [name] := by rw [List.reverse_reverse, hpieces]
  have hmakes := makes_ensureDirectories htree hpassable hsplit
    ⟨name, List.mem_singleton_self name, hname⟩
  rwa [← hdirectories, List.reverse_reverse] at hmakes

private theorem refused_of_ensureDirectory {dir : String} {e : Fault} {after : Session}
    (h : (ensureDirectory dir : StateM Session (Except Fault Unit)).run session
      = (.error e, after)) :
    after.store.makeDirectory dir = .error e ∧ after.store.isDirectory dir = false := by
  rw [run_ensureDirectory] at h
  split at h
  · cases h
  · next hmake =>
    split at h
    · cases h
    · next hdirectory =>
      obtain ⟨⟨⟩, rfl⟩ := Prod.mk.inj h
      exact ⟨hmake, eq_false_of_ne_true hdirectory⟩

/-- The last directory that was asked for is refused, and is not there either. -/
theorem refused_of_ensureDirectories {dirs : List String} {e : Fault} {after : Session}
    (h : (ensureDirectories dirs : StateM Session (Except Fault Unit)).run session
      = (.error e, after)) :
    ∃ dir ∈ dirs, after.store.makeDirectory dir = .error e ∧
      after.store.isDirectory dir = false := by
  induction dirs generalizing session with
  | nil => cases h
  | cons dir around ih =>
    rw [run_ensureDirectories_cons] at h
    split at h
    · split at h
      · next haround =>
        rw [h] at haround
        obtain ⟨d, hd, hrefused⟩ := ih haround
        exact ⟨d, List.mem_cons_of_mem dir hd, hrefused⟩
      · exact ⟨dir, List.mem_cons_self, refused_of_ensureDirectory h⟩
    · exact ⟨dir, List.mem_cons_self, refused_of_ensureDirectory h⟩

end Session

end Advisor.Files
