import Advisor.Files.Load

/-!
# Loading from a store

What scripts and settings are read as depends on the store alone, and reading changes nothing.
-/

namespace Advisor

open Files

namespace Files

namespace Store

/-- What a file holds as text. -/
def text (s : Store) (path : String) : Except Failure String :=
  if s.found path then
    match s.read path with
    | .error e => .error (.fileRead (path ++ ": " ++ e.message))
    | .ok bytes =>
      match String.fromUTF8? bytes with
      | none => .error (.fileRead (path ++ ": " ++ Fault.notText.message))
      | some text => .ok text
  else .error (.fileNotFound path)

private theorem fromUTF8?_eq_some_iff {bytes : ByteArray} {content : String} :
    String.fromUTF8? bytes = some content ↔ bytes = content.toUTF8 := by
  rw [String.fromUTF8?]
  constructor
  · intro h
    split at h
    · rw [← Option.some.inj h]
      rfl
    · simp at h
  · rintro rfl
    have hvalid : content.toUTF8.IsValidUTF8 := content.isValidUTF8
    rw [dif_pos hvalid]
    rfl

theorem text_eq_ok_iff {s : Store} {path content : String} :
    s.text path = .ok content ↔ s.read path = .ok content.toUTF8 := by
  have hfound {bytes : ByteArray} (h : s.read path = .ok bytes) : s.found path = true := by
    rw [read] at h
    rw [found]
    cases hlookup : s.lookup path with
    | error e => simp [hlookup, bind, Except.bind] at h
    | ok entry => rfl
  constructor
  · intro h
    rw [text] at h
    split at h
    · split at h
      · simp at h
      · next bytes hread =>
        split at h
        · simp at h
        · next content' hcontent =>
          rw [hread, ← Except.ok.inj h, ← fromUTF8?_eq_some_iff.mp hcontent]
    · simp at h
  · intro h
    simp only [text, hfound h, h, fromUTF8?_eq_some_iff.mpr rfl, if_pos]

/-- The script in a file. -/
def script (s : Store) (path : String) : Except Failure Script := s.text path >>= Script.decode

/-- The settings in a file, or the standard ones if no file is named. -/
def settings (s : Store) : Option String → Except Failure Settings
  | none => .ok Settings.standard
  | some path => s.text path >>= Settings.decode path

end Store

namespace Session

variable {α β : Type}

/-- What comes of an action in a session. -/
def perform (session : Session) (action : ExceptT Failure (StateM Session) α) :
    Except Failure α × Session :=
  action.run.run session

/-- The action gives what the store answers, and changes nothing. -/
def Reads (action : ExceptT Failure (StateM Session) α) (answer : Store → Except Failure α) : Prop :=
  ∀ session : Session, session.perform action = (answer session.store, session)

variable {session after : Session} {action : ExceptT Failure (StateM Session) α}
  {next : α → ExceptT Failure (StateM Session) β}

theorem perform_bind_ok {a : α} (h : session.perform action = (.ok a, after)) :
    session.perform (action >>= next) = after.perform (next a) := by
  have hrun : action.run.run session = (.ok a, after) := h
  simp only [perform, ExceptT.run_bind, StateT.run_bind]
  rw [hrun]
  rfl

theorem perform_bind_error {f : Failure} (h : session.perform action = (.error f, after)) :
    session.perform (action >>= next) = (.error f, after) := by
  have hrun : action.run.run session = (.error f, after) := h
  simp only [perform, ExceptT.run_bind, StateT.run_bind]
  rw [hrun]
  rfl

theorem perform_ask (session : Session) (question : StateM Session α) :
    session.perform (monadLift question >>= next)
      = (question.run session).2.perform (next (question.run session).1) := rfl

private theorem reads_ofExcept (answer : Except Failure α) :
    Reads (MonadExcept.ofExcept answer) fun _ => answer := by
  intro session
  cases answer <;> rfl

theorem Reads.bind {answer : Store → Except Failure α} {answers : α → Store → Except Failure β}
    (h : Reads action answer) (hnext : ∀ a, Reads (next a) (answers a)) :
    Reads (action >>= next) fun s => answer s >>= fun a => answers a s := by
  intro session
  change _ = (answer session.store >>= fun a => answers a session.store, session)
  have haction := h session
  cases hanswer : answer session.store with
  | error f =>
    rw [hanswer] at haction
    exact perform_bind_error haction
  | ok a =>
    rw [hanswer] at haction
    rw [perform_bind_ok haction, hnext a session]
    rfl

end Session

end Files

open Session

private theorem reads_loadText (path : String) : Reads (loadText path) (·.text path) := by
  intro session
  have hfound : (Environment.found path : StateM Session Bool).run session
      = (session.store.found path, session) := rfl
  have hread : (Environment.read path : StateM Session (Except Fault ByteArray)).run session
      = (session.store.read path, session) := rfl
  change _ = (session.store.text path, session)
  rw [loadText, perform_ask, hfound, Store.text]
  cases session.store.found path with
  | false => rfl
  | true =>
    change session.perform (_ >>= _) = _
    rw [perform_ask, hread]
    cases session.store.read path with
    | error e => rfl
    | ok bytes =>
      simp only [if_pos]
      cases String.fromUTF8? bytes <;> rfl

theorem Script.reads_load (path : String) : Reads (Script.load path) (·.script path) :=
  (reads_loadText path).bind fun text => reads_ofExcept (Script.decode text)

theorem Settings.reads_load (path : Option String) : Reads (Settings.load path) (·.settings path) := by
  cases path with
  | none => exact fun _ => rfl
  | some path => exact (reads_loadText path).bind fun text => reads_ofExcept (decode path text)

theorem Translation.reads_load (path : String) (settings : Settings) (now : String) :
    Reads (Translation.load path settings now)
      fun s => (s.script path).map fun script => ofScript script settings now :=
  (Script.reads_load path).bind fun script => reads_ofExcept (.ok (ofScript script settings now))

theorem Descriptor.reads_load (path : String) (settings : Settings) :
    Reads (Descriptor.load path settings)
      fun s => (s.script path).map fun script => (Scope.ofScript script settings).descriptors :=
  (Script.reads_load path).bind fun script =>
    reads_ofExcept (.ok (Scope.ofScript script settings).descriptors)

end Advisor
