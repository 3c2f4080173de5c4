import Advisor.Command.Run
import Advisor.Proofs.Command.Words
import Advisor.Proofs.Files.Saving

/-!
# Translating on the command line

Nothing is touched before the settings and the script are known to be sound. What is written then
follows from their texts, and goes where the command says: first the program, then the descriptors.
-/

namespace Advisor

open Files Files.Path Files.Session

section Texts

/-- The translation of a script with settings, both given as texts. Where the settings come from shows
in failures only and is left out. -/
def Translation.ofTexts (script : String) (settings : Option String) (now : String) :
    Except Failure Translation := do
  let settings ← match settings with
    | none => .ok Settings.standard
    | some text => Settings.decode "" text
  return ofScript (← Script.decode script) settings now

private theorem Settings.decode_eq_ok {path text : String} {c : Settings} :
    decode path text = .ok c ↔ ofText text = .ok c ∧ c.validate = .ok () := by
  simp only [decode, Wire.bind_eq_ok, Wire.mapError_eq_ok, Wire.pure_eq_ok]
  constructor
  · rintro ⟨c, htext, answer, hvalid, rfl⟩
    exact ⟨htext, hvalid⟩
  · rintro ⟨htext, hvalid⟩
    exact ⟨c, htext, (), hvalid, rfl⟩

theorem Files.Store.valid_of_settings {s : Store} {path : Option String} {c : Settings}
    (h : s.settings path = .ok c) : c.validate = .ok () := by
  cases path with
  | none =>
    obtain rfl : Settings.standard = c := Except.ok.inj h
    decide
  | some path =>
    obtain ⟨text, -, hdecode⟩ := Wire.bind_eq_ok.mp h
    exact (Settings.decode_eq_ok.mp hdecode).2

/-- What a store gives as settings and script follows from the texts of their files. -/
theorem Translation.ofTexts_of_store {s : Store} {script : String} {settings : Option String}
    {c : Settings} {p : Script} (hsettings : s.settings settings = .ok c)
    (hscript : s.script script = .ok p) (now : String) :
    ∃ text texts, s.text script = .ok text ∧ settings.mapM s.text = .ok texts ∧
      ofTexts text texts now = .ok (ofScript p c now) := by
  obtain ⟨text, htext, hdecode⟩ := Wire.bind_eq_ok.mp hscript
  cases settings with
  | none =>
    obtain rfl : Settings.standard = c := Except.ok.inj hsettings
    exact ⟨text, none, htext, rfl, by rw [ofTexts, hdecode]; rfl⟩
  | some path =>
    obtain ⟨content, hcontent, hdecodes⟩ := Wire.bind_eq_ok.mp hsettings
    have hplain : Settings.decode "" content = .ok c :=
      Settings.decode_eq_ok.mpr (Settings.decode_eq_ok.mp hdecodes)
    refine ⟨text, some content, htext, ?_, ?_⟩
    · rw [Option.mapM_some, hcontent]
      rfl
    · rw [ofTexts, hdecode]
      simp only [hplain]
      rfl

end Texts

section Delivery

variable {path text : String} {target : Option String} {before after : Session}
  {answer : Except Failure Unit}

/-- What comes of an attempt to deliver a program: it goes to the file, or else is printed. -/
def Delivery (target : Option String) (code : String) (before : Session)
    (answer : Except Failure Unit) (after : Session) : Prop :=
  match target with
  | some path => Attempt path code before answer after
  | none => answer = .ok () ∧ after = { before with printed := before.printed ++ code }

private theorem Command.delivery_deliver (target : Option String) (text : String)
    (session : Session) :
    Delivery target text session (session.perform (deliver text target)).1
      (session.perform (deliver text target)).2 := by
  cases target with
  | none => exact ⟨rfl, rfl⟩
  | some path => exact attempt_saveText path text session

theorem Attempt.writes (h : Attempt path text before answer after) :
    before.store.Confined [path] [path] after.store := by
  refine h.confined.mono ?_ (List.Subset.refl _)
  split
  · exact List.Subset.refl _
  · exact List.nil_subset _

theorem Delivery.writes (h : Delivery target text before answer after) :
    before.store.Confined target.toList target.toList after.store := by
  cases target with
  | none =>
    obtain ⟨-, rfl⟩ := h
    exact .refl [] [] before.store
  | some path => exact Attempt.writes h

end Delivery

namespace Outcome

def ofAnswer : Except Failure Unit → Outcome
  | .ok () => done
  | .error f => failed f

end Outcome

namespace Command

/-- How a run goes on with a translation. The descriptors are saved only once the program has been
delivered, and leave it as it is if they go to another file. -/
inductive Course (t : Translation) (code descriptors : Option String) (before : Session) :
    Outcome × Session → Prop where
  | undelivered {f : Failure} {after : Session} : Delivery code t.code before (.error f) after →
      Course t code descriptors before (.failed f, after)
  | delivered {after : Session} : Delivery code t.code before (.ok ()) after → descriptors = none →
      Course t code descriptors before (.done, after)
  | attempted {path : String} {between after : Session} {answer : Except Failure Unit} :
      Delivery code t.code before (.ok ()) between → descriptors = some path →
      Attempt path (Descriptor.document t.descriptors) between answer after →
      (∀ file ∈ code, place before.store.working file ≠ place before.store.working path →
        after.store.read file = .ok t.code.toUTF8) →
      Course t code descriptors before (.ofAnswer answer, after)

section

variable {now : String} {code descriptors settings : Option String} {script : String}
  {words : List String} {command : Command} {t : Translation} {c : Settings} {p : Script}
  {before : Session} {ran : Outcome × Session}

theorem Course.confined (h : Course t code descriptors before ran) :
    before.store.Confined (code.toList ++ descriptors.toList) (code.toList ++ descriptors.toList)
      ran.2.store := by
  have hleft : code.toList ⊆ code.toList ++ descriptors.toList := List.subset_append_left _ _
  cases h with
  | undelivered hdelivery => exact hdelivery.writes.mono hleft hleft
  | delivered hdelivery => exact hdelivery.writes.mono hleft hleft
  | @attempted path _ _ _ hdelivery hpath hattempt =>
    have hright : [path] ⊆ code.toList ++ descriptors.toList := by
      rw [hpath]
      exact List.subset_append_right _ _
    exact (hdelivery.writes.mono hleft hleft).trans (hattempt.writes.mono hright hright)

/-- The program is printed if it goes to no file, and nothing else ever is. -/
theorem Course.printed (h : Course t code descriptors before ran) :
    ran.2.printed = before.printed ++ code.elim t.code fun _ => "" := by
  have hdelivery {answer : Except Failure Unit} {after : Session}
      (h : Delivery code t.code before answer after) :
      after.printed = before.printed ++ code.elim t.code fun _ => "" := by
    cases code with
    | none =>
      obtain ⟨-, rfl⟩ := h
      rfl
    | some file => simpa using Attempt.printed h
  cases h with
  | undelivered h => exact hdelivery h
  | delivered h => exact hdelivery h
  | attempted h _ hattempt => exact hattempt.printed.trans (hdelivery h)

private theorem Course.read_code {file : String} (h : Course t (some file) descriptors before ran)
    (hother : ∀ path ∈ descriptors, place before.store.working file
      ≠ place before.store.working path) (hdone : ran.1 = .done) :
    ran.2.store.read file = .ok t.code.toUTF8 := by
  cases h with
  | undelivered => simp at hdone
  | delivered h => exact Attempt.written h rfl
  | attempted _ hpath _ hkept => exact hkept file rfl (hother _ hpath)

theorem Course.read_descriptors {path : String} (h : Course t code (some path) before ran)
    (hdone : ran.1 = .done) :
    ran.2.store.read path = .ok (Descriptor.document t.descriptors).toUTF8 := by
  cases h with
  | undelivered => simp at hdone
  | delivered _ hnone => simp at hnone
  | @attempted path' _ _ answer _ hpath hattempt =>
    obtain rfl := Option.some.inj hpath
    cases answer with
    | error f => simp [Outcome.ofAnswer] at hdone
    | ok => exact hattempt.written rfl

theorem runWords_run (hwords : ofWords words = some command) (now : String) (session : Session) :
    (runWords now words : StateM Session Outcome).run session
      = (.ofAnswer (session.perform (run now command)).1, (session.perform (run now command)).2) := by
  cases hperform : session.perform (run now command) with | mk answer after =>
  have hrun : (ExceptT.run (run now command : ExceptT Failure (StateM Session) Unit)).run session
      = (answer, after) := hperform
  simp only [runWords, hwords]
  rw [Session.run_bind, hrun]
  cases answer <;> rfl

/-- Settings are read first, then what depends on the script, and only then the action goes on. -/
theorem perform_loaded {α β : Type} {load : Settings → ExceptT Failure (StateM Session) α}
    {answer : Settings → Script → α}
    (hload : ∀ c, Reads (load c) fun s => (s.script script).map (answer c))
    (next : α → ExceptT Failure (StateM Session) β) (settings : Option String) (session : Session) :
    session.perform (Settings.load settings >>= fun c => load c >>= next) =
      match session.store.settings settings, session.store.script script with
      | .error f, _ => (.error f, session)
      | .ok _, .error f => (.error f, session)
      | .ok c, .ok p => session.perform (next (answer c p)) := by
  have hsettings : session.perform (Settings.load settings)
      = (session.store.settings settings, session) := Settings.reads_load settings session
  have hscript (c : Settings) : session.perform (load c)
      = ((session.store.script script).map (answer c), session) := hload c session
  cases hc : session.store.settings settings with
  | error f => exact perform_bind_error (hc ▸ hsettings)
  | ok c =>
    rw [perform_bind_ok (hc ▸ hsettings)]
    cases hp : session.store.script script with
    | error f => exact perform_bind_error ((hscript c).trans (by rw [hp]; rfl))
    | ok p => exact perform_bind_ok ((hscript c).trans (by rw [hp]; rfl))

theorem perform_translate (session : Session) :
    session.perform (run now (.translate script code descriptors settings)) =
      match session.store.settings settings, session.store.script script with
      | .error f, _ => (.error f, session)
      | .ok _, .error f => (.error f, session)
      | .ok c, .ok p => session.perform do
          let t := Translation.ofScript p c now
          deliver t.code code
          match descriptors with
          | some path => Descriptor.saveAll path t.descriptors
          | none => return :=
  perform_loaded (fun c => Translation.reads_load script c now) _ settings session

/-- The program is delivered before anything is done about the descriptors. -/
theorem course_perform (t : Translation) (code descriptors : Option String) (session : Session) :
    let made := session.perform do
      deliver t.code code
      match descriptors with
      | some path => Descriptor.saveAll path t.descriptors
      | none => return
    Course t code descriptors session (.ofAnswer made.1, made.2) := by
  intro made
  have hdelivery := delivery_deliver code t.code session
  cases hdeliver : session.perform (deliver t.code code) with | mk answer between =>
  rw [hdeliver] at hdelivery
  cases answer with
  | error f =>
    have hmade : made = (.error f, between) := perform_bind_error hdeliver
    rw [hmade]
    exact .undelivered hdelivery
  | ok =>
    cases descriptors with
    | none =>
      have hmade : made = (.ok (), between) := perform_bind_ok hdeliver
      rw [hmade]
      exact .delivered hdelivery rfl
    | some path =>
      have hmade : made = between.perform (saveText path (Descriptor.document t.descriptors)) :=
        perform_bind_ok hdeliver
      have hattempt := attempt_saveText path (Descriptor.document t.descriptors) between
      rw [← hmade] at hattempt
      refine .attempted hdelivery rfl hattempt fun file hfile hother => ?_
      obtain rfl := Option.mem_def.mp hfile
      refine hattempt.writes.read (List.forall_mem_singleton.mpr ?_) (Attempt.written hdelivery rfl)
      rw [hdelivery.writes.working]
      exact hother

theorem course_runWords (hwords : ofWords words = some (.translate script code descriptors settings))
    {session : Session} (hsettings : session.store.settings settings = .ok c)
    (hscript : session.store.script script = .ok p) (now : String) :
    Course (Translation.ofScript p c now) code descriptors session
      ((runWords now words : StateM Session Outcome).run session) := by
  rw [runWords_run hwords, perform_translate, hsettings, hscript]
  exact course_perform (Translation.ofScript p c now) code descriptors session

private theorem refused_runWords {f : Failure}
    (hwords : ofWords words = some (.translate script code descriptors settings)) {session : Session}
    (hrefused : (session.store.settings settings >>= fun _ => session.store.script script)
      = .error f) (now : String) :
    (runWords now words : StateM Session Outcome).run session = (.failed f, session) := by
  rw [runWords_run hwords, perform_translate]
  cases hc : session.store.settings settings with
  | error e =>
    rw [hc] at hrefused
    rw [← Except.error.inj hrefused]
    rfl
  | ok c =>
    rw [hc] at hrefused
    have hscript : session.store.script script = .error f := hrefused
    rw [hscript]
    rfl

/-- Settings that are not sound end the run, then a script that is not, and nothing is changed or
printed. Otherwise the texts of the files say what is written, and no file and no directory is touched
that the command does not ask for. -/
theorem runWords_translate {words : List String} {script : String}
    {code descriptors settings : Option String}
    (hwords : ofWords words = some (.translate script code descriptors settings))
    (session : Session) (now : String) :
    let ran := (runWords now words : StateM Session Outcome).run session
    (∀ f, session.store.settings settings = .error f → ran = (.failed f, session)) ∧
    (∀ c f, session.store.settings settings = .ok c → session.store.script script = .error f →
      ran = (.failed f, session)) ∧
    (∀ c p, session.store.settings settings = .ok c → session.store.script script = .ok p →
      ∃ text texts t, session.store.text script = .ok text ∧
        settings.mapM session.store.text = .ok texts ∧
        Translation.ofTexts text texts now = .ok t ∧ Course t code descriptors session ran ∧
        ran.2.printed = session.printed ++ code.elim t.code fun _ => "") ∧
    session.store.Confined (code.toList ++ descriptors.toList) (code.toList ++ descriptors.toList)
      ran.2.store := by
  intro ran
  cases hc : session.store.settings settings with
  | error f =>
    have hran : ran = (.failed f, session) := refused_runWords hwords (by rw [hc]; rfl) now
    rw [hran]
    exact ⟨fun _ hf => Except.error.inj hf ▸ rfl, nofun, nofun, .refl _ _ _⟩
  | ok c =>
    cases hp : session.store.script script with
    | error f =>
      have hran : ran = (.failed f, session) := refused_runWords hwords (by rw [hc, hp]; rfl) now
      rw [hran]
      exact ⟨nofun, fun _ _ _ hf => Except.error.inj hf ▸ rfl, nofun, .refl _ _ _⟩
    | ok p =>
      have hcourse : Course (Translation.ofScript p c now) code descriptors session ran :=
        course_runWords hwords hc hp now
      obtain ⟨text, texts, htext, htexts, hofTexts⟩ := Translation.ofTexts_of_store hc hp now
      exact ⟨nofun, nofun, fun _ _ _ _ =>
        ⟨text, texts, _, htext, htexts, hofTexts, hcourse, hcourse.printed⟩, hcourse.confined⟩

end

/-- The text of a script with an input and a global. -/
def basketText : String :=
  "\x7b\"name\":\"Basket\",\"body\":[
    \x7b\"type\":\"VariableDeclaration\",\"name\":\"lots\",\"varType\":\"double\",\"isInput\":true\x7d,
    \x7b\"type\":\"VariableDeclaration\",\"name\":\"step\",\"varType\":\"int\"\x7d]\x7d"

def basketScript : Script :=
  ⟨some "Basket", [.variable ⟨"lots", "double", none, true⟩, .variable ⟨"step", "int", none, false⟩]⟩

private theorem decode_basketText : Script.decode basketText = .ok basketScript := by
  have htokens : Json.Token.ofText basketText = [.beginObject, .text "name", .colon, .text "Basket",
      .comma, .text "body", .colon, .beginArray,
      .beginObject, .text "type", .colon, .text "VariableDeclaration", .comma, .text "name", .colon,
      .text "lots", .comma, .text "varType", .colon, .text "double", .comma, .text "isInput", .colon,
      .bool true, .endObject, .comma, .beginObject, .text "type", .colon,
      .text "VariableDeclaration", .comma, .text "name", .colon, .text "step", .comma,
      .text "varType", .colon, .text "int", .endObject, .endArray, .endObject] := by
    decide +kernel
  have hdocument : Json.Document.ofText basketText = (.object [(some "name", .text "Basket"),
      (some "body", .array
        [.object [(some "type", .text "VariableDeclaration"), (some "name", .text "lots"),
            (some "varType", .text "double"), (some "isInput", .bool true)] true,
          .object [(some "type", .text "VariableDeclaration"), (some "name", .text "step"),
            (some "varType", .text "int")] true] true)] true, true) := by
    rw [Json.Document.ofText, htokens]
    rfl
  rw [Script.decode, Script.ofText, Wire.ofText, hdocument]
  rfl

/-- The script in a file of the working directory. -/
def basketSession : Session :=
  ⟨⟨[(["work", "basket.json"], .file basketText.toUTF8), (["work"], .directory)], ["work"]⟩, ""⟩

private theorem text_basketSession : basketSession.store.text "basket.json" = .ok basketText := by
  rw [Store.text_eq_ok_iff, basketSession]
  generalize basketText.toUTF8 = bytes
  rfl

theorem script_basketSession : basketSession.store.script "basket.json" = .ok basketScript :=
  Wire.bind_eq_ok.mpr ⟨basketText, text_basketSession, decode_basketText⟩

/-- The program goes to a directory that is missing. -/
def basketWords : List String :=
  ["translate", "basket.json", "--out", "build/basket.js", "--metadata", "inputs.json"]

private theorem ofWords_basketWords : ofWords basketWords
    = some (.translate "basket.json" (some "build/basket.js") (some "inputs.json") none) := by
  refine @ofWords_translate "basket.json" (some "build/basket.js") (some "inputs.json") none
    ⟨by decide, by decide⟩ ?_ ?_ (by simp)
  · rintro _ ⟨⟩
    exact ⟨by decide, by decide⟩
  · rintro _ ⟨⟩
    exact ⟨by decide, by decide⟩

private theorem basketWords_done :
    ((runWords "" basketWords : StateM Session Outcome).run basketSession).1 = .done := by
  rw [runWords_run ofWords_basketWords, perform_translate, script_basketSession]
  simp only [basketSession]
  generalize basketText.toUTF8 = bytes
  rfl

/-- Both files are written and nothing is printed. -/
theorem basketWords_course :
    ofWords basketWords
        = some (.translate "basket.json" (some "build/basket.js") (some "inputs.json") none) ∧
      ∃ t, Translation.ofTexts basketText none "" = .ok t ∧
        let ran := (runWords "" basketWords : StateM Session Outcome).run basketSession
        Course t (some "build/basket.js") (some "inputs.json") basketSession ran ∧
          ran.1 = .done ∧ ran.2.printed = "" ∧
          ran.2.store.read "build/basket.js" = .ok t.code.toUTF8 ∧
          ran.2.store.read "inputs.json" = .ok (Descriptor.document t.descriptors).toUTF8 := by
  obtain ⟨-, -, hsound, -⟩ := runWords_translate ofWords_basketWords basketSession ""
  obtain ⟨text, texts, t, htext, htexts, hofTexts, hcourse, hprinted⟩ :=
    hsound _ _ rfl script_basketSession
  obtain rfl : basketText = text := Except.ok.inj (text_basketSession.symm.trans htext)
  obtain rfl : none = texts := Except.ok.inj htexts
  refine ⟨ofWords_basketWords, t, hofTexts, hcourse, basketWords_done, hprinted, ?_, ?_⟩
  · refine hcourse.read_code ?_ basketWords_done
    rintro _ ⟨⟩
    decide
  · exact hcourse.read_descriptors basketWords_done

end Command

end Advisor
