import Advisor.Files.Save
import Advisor.Proofs.Files.Admission
import Advisor.Proofs.Files.Loading

/-!
# What saving does to a store

A text that is saved comes to stand at the place of its path, and directories may be made on the way
there. Nothing else changes, and if saving fails no file does. It fails only where the store refuses
a directory or the file, so that in a tree it can be told beforehand whether the text is saved.
-/

namespace Advisor

open Files Files.Path Files.Session

namespace Files

/-- What may become of a location if these files are written and directories are made on the way to
these paths. -/
inductive Change (working : Location) (files paths : List String) (l : Location) :
    Option Entry → Option Entry → Prop where
  | kept (entry : Option Entry) : Change working files paths l entry entry
  | written {path : String} {before : Option Entry} (bytes : ByteArray) : path ∈ files →
      l = place working path → before ≠ some .directory →
      Change working files paths l before (some (.file bytes))
  | made {path : String} : path ∈ paths → Passes working path l →
      Change working files paths l none (some .directory)

namespace Change

variable {working : Location} {files paths files' paths' : List String} {l : Location}
  {before between after : Option Entry}

theorem trans (h : Change working files paths l before between)
    (h' : Change working files paths l between after) :
    Change working files paths l before after := by
  cases h with
  | kept => exact h'
  | written bytes hfile hplace hentry =>
    cases h' with
    | kept => exact .written bytes hfile hplace hentry
    | written bytes' hfile' hplace' _ => exact .written bytes' hfile' hplace' hentry
  | made hpath hpasses =>
    cases h' with
    | kept => exact .made hpath hpasses
    | written bytes _ _ hentry => exact absurd rfl hentry

theorem mono (h : Change working files paths l before after) (hfiles : files ⊆ files')
    (hpaths : paths ⊆ paths') : Change working files' paths' l before after := by
  cases h with
  | kept => exact .kept before
  | written bytes hfile hplace hentry => exact .written bytes (hfiles hfile) hplace hentry
  | made hpath hpasses => exact .made (hpaths hpath) hpasses

private theorem of_directory (h : Change working files paths l before (some .directory)) :
    before = some .directory ∨ ∃ path ∈ paths, Passes working path l := by
  cases h with
  | kept => exact .inl rfl
  | made hpath hpasses => exact .inr ⟨_, hpath, hpasses⟩

theorem directory (h : Change working files paths l (some .directory) after) :
    after = some .directory := by
  cases h with
  | kept => rfl
  | written bytes _ _ hentry => exact absurd rfl hentry

theorem file {bytes : ByteArray} (h : Change working files paths l (some (.file bytes)) after)
    (hother : ∀ path ∈ files, l ≠ place working path) : after = some (.file bytes) := by
  cases h with
  | kept => rfl
  | written bytes hfile hplace => exact absurd hplace (hother _ hfile)

end Change

namespace Store

/-- All that happens between two stores is that these files are written and directories are made on
the way to these paths. -/
structure Confined (files paths : List String) (s t : Store) : Prop where
  working : t.working = s.working
  change : ∀ l, Change s.working files paths l (s.get? l) (t.get? l)

namespace Confined

variable {files paths files' paths' : List String} {s t u : Store}

theorem refl (files paths : List String) (s : Store) : Confined files paths s s :=
  ⟨rfl, fun l => .kept (s.get? l)⟩

theorem trans (h : Confined files paths s t) (h' : Confined files paths t u) :
    Confined files paths s u :=
  ⟨h'.working.trans h.working, fun l => (h.change l).trans (h.working ▸ h'.change l)⟩

theorem mono (h : Confined files paths s t) (hfiles : files ⊆ files') (hpaths : paths ⊆ paths') :
    Confined files' paths' s t :=
  ⟨h.working, fun l => (h.change l).mono hfiles hpaths⟩

private theorem keepsDirectories (h : Confined files paths s t) : KeepsDirectories s t := by
  intro l hl
  have hchange := h.change l
  rw [hl] at hchange
  exact hchange.directory

theorem read {path : String} {bytes : ByteArray} (h : Confined files paths s t)
    (hother : ∀ file ∈ files, place s.working path ≠ place s.working file)
    (hread : s.read path = .ok bytes) : t.read path = .ok bytes := by
  refine h.keepsDirectories.read h.working ?_ hread
  have hchange := h.change (place s.working path)
  rw [(read_eq_ok.mp hread).2] at hchange ⊢
  exact hchange.file hother

theorem makeDirectory {path dir : String} (h : s.makeDirectory dir = .ok t)
    (hpasses : Passes s.working path (place s.working dir)) : Confined [] [path] s t := by
  obtain ⟨rfl, ⟨parent, name, hplace, -⟩, hnone⟩ := makeDirectory_eq_ok h
  have hnonempty : place s.working dir ≠ [] := by simp [hplace]
  refine ⟨rfl, fun l => ?_⟩
  by_cases hl : l = place s.working dir
  · subst hl
    rw [get?_put_self s hnonempty, hnone]
    exact .made List.mem_cons_self hpasses
  · rw [get?_put_of_ne s hl]
    exact .kept (s.get? l)

theorem write {path : String} {bytes : ByteArray} (h : s.write path bytes = .ok t) :
    Confined [path] [path] s t := by
  obtain ⟨rfl, ⟨parent, name, hplace, -⟩, hentry, -⟩ := write_eq_ok h
  have hnonempty : place s.working path ≠ [] := by simp [hplace]
  refine ⟨rfl, fun l => ?_⟩
  by_cases hl : l = place s.working path
  · subst hl
    rw [get?_put_self s hnonempty]
    exact .written bytes List.mem_cons_self rfl hentry
  · rw [get?_put_of_ne s hl]
    exact .kept (s.get? l)

end Confined

end Store

namespace Session

/-- Nothing has happened but that directories were made on the way to the path. -/
structure OnTheWay (path : String) (before after : Session) : Prop where
  printed : after.printed = before.printed
  confined : before.store.Confined [] [path] after.store
  tree : before.store.IsTree → after.store.IsTree

variable {path : String} {session before between after : Session}

theorem OnTheWay.refl (path : String) (session : Session) : OnTheWay path session session :=
  ⟨rfl, .refl [] [path] session.store, id⟩

theorem OnTheWay.trans (h : OnTheWay path before between) (h' : OnTheWay path between after) :
    OnTheWay path before after :=
  ⟨h'.printed.trans h.printed, h.confined.trans h'.confined, h'.tree ∘ h.tree⟩

private theorem onTheWay_ensureDirectory {dir : String}
    (hpasses : Passes session.store.working path (place session.store.working dir)) :
    OnTheWay path session
      ((ensureDirectory dir : StateM Session (Except Fault Unit)).run session).2 := by
  rw [run_ensureDirectory]
  split
  · next hmake => exact ⟨rfl, .makeDirectory hmake hpasses, fun htree => htree.makeDirectory hmake⟩
  · exact .refl path session

/-- By induction on the directories. Those around the first are made in between, if the first cannot be
made without them. -/
theorem onTheWay_ensureDirectories {dirs : List String}
    (hpasses : ∀ dir ∈ dirs, Passes session.store.working path (place session.store.working dir)) :
    OnTheWay path session
      ((ensureDirectories dirs : StateM Session (Except Fault Unit)).run session).2 := by
  induction dirs generalizing session with
  | nil => exact .refl path session
  | cons dir around ih =>
    obtain ⟨hdir, haround⟩ := List.forall_mem_cons.mp hpasses
    have hfirst := onTheWay_ensureDirectory hdir
    rw [run_ensureDirectories_cons]
    generalize (ensureDirectory dir : StateM Session (Except Fault Unit)).run session = made
      at hfirst
    split
    · next after =>
      have hinner := @ih after (hfirst.confined.working ▸ haround)
      generalize (ensureDirectories around : StateM Session (Except Fault Unit)).run after = inner
        at hinner
      have hboth := hfirst.trans hinner
      split
      · exact hboth
      · exact hboth.trans (onTheWay_ensureDirectory (hboth.confined.working ▸ hdir))
    · exact hfirst

end Session

end Files

/-- Why a text is not saved: a directory around the file cannot be made and is not there, or the file
cannot be written. -/
inductive Refusal (path : String) (bytes : ByteArray) (s : Store) : Failure → Prop where
  | room {dir refused : String} {around : List String} {e : Fault} :
      directories path = dir :: around → refused ∈ dir :: around →
      s.makeDirectory refused = .error e → s.isDirectory refused = false →
      Refusal path bytes s (.fileWrite ("Cannot create " ++ dir ++ ": " ++ e.message))
  | file {e : Fault} : s.write path bytes = .error e →
      Refusal path bytes s (.fileWrite ("Cannot write " ++ path ++ ": " ++ e.message))

/-- How an attempt to save a text at a path may go. -/
structure Attempt (path text : String) (before : Session) (answer : Except Failure Unit)
    (after : Session) : Prop where
  printed : after.printed = before.printed
  confined : before.store.Confined (if answer.isOk then [path] else []) [path] after.store
  tree : before.store.IsTree → after.store.IsTree
  written : answer = .ok () → after.store.read path = .ok text.toUTF8
  refused : ∀ f, answer = .error f → Refusal path text.toUTF8 after.store f
  /-- In a tree it can be told beforehand whether the text is saved. -/
  answered : before.store.IsTree → (answer = .ok () ↔ before.store.Admits path)

section

variable {path : String} {s t : Store} {session : Session}

private theorem perform_makeRoom (path : String) (session : Session) :
    session.perform (makeRoom path) =
      let made := (ensureDirectories (directories path) : StateM Session (Except Fault Unit)).run
        session
      (made.1.mapError fun e => .fileWrite
        ("Cannot create " ++ (directories path).headD "" ++ ": " ++ e.message), made.2) := by
  rw [makeRoom]
  cases directories path with
  | nil => rfl
  | cons dir around =>
    simp only [perform_ask]
    generalize (ensureDirectories (dir :: around) : StateM Session (Except Fault Unit)).run session
      = made
    obtain ⟨_ | ⟨⟩, after⟩ := made <;> rfl

private theorem onTheWay_makeRoom (path : String) (session : Session) :
    session.OnTheWay path (session.perform (makeRoom path)).2 := by
  rw [perform_makeRoom]
  exact onTheWay_ensureDirectories fun _ => passes_of_mem_directories session.store.working

private theorem refusal_of_makeRoom {f : Failure} {after : Session}
    (h : session.perform (makeRoom path) = (.error f, after)) (bytes : ByteArray) :
    Refusal path bytes after.store f := by
  rw [perform_makeRoom] at h
  cases hmade : (ensureDirectories (directories path) : StateM Session (Except Fault Unit)).run
      session with | mk answer between =>
  rw [hmade] at h
  cases answer with
  | ok => cases h
  | error e =>
    cases h
    obtain ⟨refused, hrefused, hmake, hdirectory⟩ := refused_of_ensureDirectories hmade
    obtain ⟨dir, around, hdirs⟩ := List.exists_cons_of_ne_nil (List.ne_nil_of_mem hrefused)
    rw [hdirs] at hrefused ⊢
    exact .room hdirs hrefused hmake hdirectory

/-- Where a file is admitted there is room for it, and then it is written. -/
theorem write_of_admits (htree : session.store.IsTree) (h : session.store.Admits path)
    (bytes : ByteArray) : ∃ after store, session.perform (makeRoom path) = (.ok (), after) ∧
      after.store.write path bytes = .ok store := by
  obtain ⟨name, hlast, hname⟩ := h.named
  obtain ⟨qs, hpieces⟩ := List.getLast?_eq_some_iff.mp hlast
  obtain ⟨store, hmade, -, hpassable, hopens⟩ :=
    makes_directories htree h.toPassable hpieces hname.1
  have hway := onTheWay_makeRoom path session
  rw [perform_makeRoom, hmade] at hway ⊢
  have htarget : store.get? (place store.working path) ≠ some .directory := by
    have hchange := hway.confined.change (place session.store.working path)
    intro hdirectory
    rw [hway.confined.working] at hdirectory
    rw [hdirectory] at hchange
    obtain hbefore | ⟨_, hmember, hpasses⟩ := hchange.of_directory
    · exact h.target hbefore
    · exact h.apart (List.mem_singleton.mp hmember ▸ hpasses)
  exact ⟨_, _, rfl, Store.write_of_opens hpassable hpieces hname hopens htarget⟩

/-- What is admitted after a text was saved was admitted before. -/
theorem Files.Store.Admits.of_confined (h : t.Admits path) (hconfined : s.Confined [path] [path] t) :
    s.Admits path := by
  obtain ⟨⟨hproper, hshort, hpieces, hthrough⟩, hnamed, htarget, hapart⟩ := h
  rw [hconfined.working] at hthrough htarget hapart
  refine ⟨⟨hproper, hshort, hpieces, fun l bytes hpasses hfile => ?_⟩, hnamed, fun hdirectory => ?_,
    hapart⟩
  · have hchange := hconfined.change l
    rw [hfile] at hchange
    refine hthrough l bytes hpasses (hchange.file (List.forall_mem_singleton.mpr ?_))
    rintro rfl
    exact hapart hpasses
  · exact htarget (hconfined.keepsDirectories _ hdirectory)

private theorem perform_saveText (path text : String) (session : Session) :
    session.perform (saveText path text) =
      match session.perform (makeRoom path) with
      | (.error f, after) => (.error f, after)
      | (.ok (), after) =>
        match after.store.write path text.toUTF8 with
        | .error e => (.error (.fileWrite ("Cannot write " ++ path ++ ": " ++ e.message)), after)
        | .ok store => (.ok (), { after with store }) := by
  rw [saveText]
  cases hroom : session.perform (makeRoom path) with | mk answer after =>
  cases answer with
  | error f => exact perform_bind_error hroom
  | ok =>
    have hwrite : (Environment.write path text.toUTF8 : StateM Session (Except Fault Unit)).run after
        = after.advance (·.write path text.toUTF8) := rfl
    rw [perform_bind_ok hroom, perform_ask, hwrite, advance]
    dsimp only
    cases after.store.write path text.toUTF8 <;> rfl

private theorem attempt_refused {text : String} {after : Session} {f : Failure}
    (hway : session.OnTheWay path after) (hrefusal : Refusal path text.toUTF8 after.store f)
    (hnot : session.store.IsTree → ¬ session.store.Admits path) :
    Attempt path text session (.error f) after := by
  refine ⟨hway.printed, hway.confined, hway.tree, by simp, fun e he => ?_, fun htree => ?_⟩
  · rwa [← Except.error.inj he]
  · exact iff_of_false (by simp) (hnot htree)

theorem attempt_saveText (path text : String) (session : Session) :
    Attempt path text session (session.perform (saveText path text)).1
      (session.perform (saveText path text)).2 := by
  have hway := onTheWay_makeRoom path session
  have hadmitted (htree : session.store.IsTree) (h : session.store.Admits path) :=
    write_of_admits htree h text.toUTF8
  rw [perform_saveText]
  cases hroom : session.perform (makeRoom path) with | mk answer after =>
  rw [hroom] at hway hadmitted
  cases answer with
  | error f =>
    refine attempt_refused hway (refusal_of_makeRoom hroom text.toUTF8) fun htree h => ?_
    obtain ⟨_, _, hok, -⟩ := hadmitted htree h
    cases hok
  | ok =>
    dsimp only
    cases hstore : after.store.write path text.toUTF8 with
    | error e =>
      refine attempt_refused hway (.file hstore) fun htree h => ?_
      obtain ⟨_, _, ⟨⟩, hok⟩ := hadmitted htree h
      cases hstore.symm.trans hok
    | ok store =>
      have hconfined := (hway.confined.mono (List.nil_subset _) (List.Subset.refl _)).trans
        (.write hstore)
      have hread := (Store.write_eq_ok hstore).2.2.2
      have htree (h : session.store.IsTree) : store.IsTree := (hway.tree h).write hstore
      exact ⟨hway.printed, hconfined, htree, fun _ => hread, by simp,
        fun h => iff_of_true rfl (((htree h).admits hread).of_confined hconfined)⟩

end

end Advisor
