import Advisor.Proofs.Command.Translate
import Advisor.Proofs.Translation.Constructor

/-!
# Views of the inputs

The descriptors that are asked for, those of a translation, the lines of the constructor and the
documents that are printed and saved all say the same of the inputs.
-/

namespace Advisor.Command

open Files Files.Session

variable {session : Session} {script : String} {settings : Option String} {words : List String}

private theorem perform_describe (now : String) (session : Session) (script : String)
    (settings : Option String) :
    session.perform (run now (.describe script settings)) =
      match session.store.settings settings, session.store.script script with
      | .error f, _ => (.error f, session)
      | .ok _, .error f => (.error f, session)
      | .ok c, .ok p => (.ok (), { session with
          printed := session.printed ++
            (Descriptor.document (Scope.ofScript p c).descriptors ++ "\n") }) :=
  perform_loaded (fun c => Descriptor.reads_load script c) _ settings session

private theorem exists_of_describe_done {now : String}
    (hwords : ofWords words = some (.describe script settings))
    (hdone : ((runWords now words : StateM Session Outcome).run session).1 = .done) :
    ∃ c p, session.store.settings settings = .ok c ∧ session.store.script script = .ok p ∧
      ((runWords now words : StateM Session Outcome).run session).2.printed
        = session.printed ++ (Descriptor.document (Scope.ofScript p c).descriptors ++ "\n") := by
  rw [runWords_run hwords, perform_describe] at hdone ⊢
  cases hc : session.store.settings settings with
  | error f => simp [hc, Outcome.ofAnswer] at hdone
  | ok c =>
    cases hp : session.store.script script with
    | error f => simp [hc, hp, Outcome.ofAnswer] at hdone
    | ok p => exact ⟨c, p, rfl, rfl, rfl⟩

private theorem answer_load (session : Session) (script : String) (c : Settings) (now : String) :
    (session.perform (Translation.load script c now)).1
      = (session.store.script script).map fun p => Translation.ofScript p c now := by
  rw [Translation.reads_load script c now session]

/-- Asking for the descriptors of a script gives those of its translation, or fails alike. The
constructor has the line of each and then that of each global. What is printed of them is what a
translation saves. -/
theorem views_agree (session : Session) (script : String) (settings : Option String) :
    (∀ c now,
      (∀ ds, (session.perform (Descriptor.load script c)).1 = .ok ds ↔
        ∃ t, (session.perform (Translation.load script c now)).1 = .ok t ∧ t.descriptors = ds) ∧
      ∀ f, (session.perform (Descriptor.load script c)).1 = .error f ↔
        (session.perform (Translation.load script c now)).1 = .error f) ∧
    (∀ c p t seconds, session.store.settings settings = .ok c →
      session.store.script script = .ok p →
      (session.perform (Translation.load script c (Timestamp.ofSeconds seconds))).1 = .ok t →
      p.Unbroken →
      c.ReadsConstructor t.code (c.constructorBody t.descriptors (Scope.ofScript p c).globals)) ∧
    ∀ words words' code file now now', ofWords words = some (.describe script settings) →
      ofWords words' = some (.translate script code (some file) settings) →
      let described := (runWords now words : StateM Session Outcome).run session
      let translated := (runWords now' words' : StateM Session Outcome).run session
      described.1 = .done → translated.1 = .done →
      ∃ text, translated.2.store.read file = .ok text.toUTF8 ∧
        described.2.printed = session.printed ++ text ++ "\n" := by
  have hdescribed (c : Settings) : (session.perform (Descriptor.load script c)).1
      = (session.store.script script).map fun p => (Scope.ofScript p c).descriptors := by
    rw [Descriptor.reads_load script c session]
  refine ⟨fun c now => ?_, fun c p t seconds hc hp ht hunbroken => ?_, ?_⟩
  · rw [hdescribed, answer_load]
    cases session.store.script script with
    | error f => simp [Except.map]
    | ok p => simp [Except.map, Translation.ofScript]
  · rw [answer_load, hp] at ht
    rw [← Except.ok.inj ht]
    exact Translation.readsConstructor (Store.valid_of_settings hc) hunbroken
      (Translation.oneLine_ofSeconds seconds)
  · intro words words' code file now now' hwords hwords' described translated hdone hdone'
    obtain ⟨c, p, hc, hp, hprinted⟩ := exists_of_describe_done hwords hdone
    have hcourse := course_runWords hwords' hc hp now'
    refine ⟨Descriptor.document (Scope.ofScript p c).descriptors, ?_, ?_⟩
    · exact hcourse.read_descriptors hdone'
    · rw [hprinted, String.append_assoc]

private theorem unbroken_basketScript : basketScript.Unbroken := by
  simp [Script.Unbroken, basketScript, Declaration.Unbroken, Variable.Unbroken, OneLine]

def describeWords : List String := ["metadata", "basket.json"]

def saveWords : List String := ["translate", "basket.json", "--metadata", "inputs.json"]

private theorem ofWords_describeWords :
    ofWords describeWords = some (.describe "basket.json" none) := by
  decide

private theorem ofWords_saveWords :
    ofWords saveWords = some (.translate "basket.json" none (some "inputs.json") none) := by
  decide

private theorem describeWords_done :
    ((runWords "" describeWords : StateM Session Outcome).run basketSession).1 = .done := by
  rw [runWords_run ofWords_describeWords, perform_describe, script_basketSession]
  rfl

private theorem saveWords_done :
    ((runWords "" saveWords : StateM Session Outcome).run basketSession).1 = .done := by
  rw [runWords_run ofWords_saveWords, perform_translate, script_basketSession]
  simp only [basketSession]
  generalize basketText.toUTF8 = bytes
  rfl

theorem basketScript_viewed :
    (basketSession.perform (Descriptor.load "basket.json" Settings.standard)).1
        = .ok [⟨"lots", "double", "0.0", "double parameter"⟩] ∧
      Settings.standard.ReadsConstructor
        (Translation.ofScript basketScript Settings.standard (Timestamp.ofSeconds 0)).code
        ["    this.api = api;", "    this.lots = parameters.lots !== undefined ? parameters.lots : 0.0;",
          "    this.step = 0;"] ∧
      ∃ text, ((runWords "" saveWords : StateM Session Outcome).run basketSession).2.store.read
            "inputs.json" = .ok text.toUTF8 ∧
        ((runWords "" describeWords : StateM Session Outcome).run basketSession).2.printed
          = "" ++ text ++ "\n" := by
  obtain ⟨hdescribed, hconstructor, hprinted⟩ := views_agree basketSession "basket.json" none
  have hload (now : String) :
      (basketSession.perform (Translation.load "basket.json" Settings.standard now)).1
        = .ok (Translation.ofScript basketScript Settings.standard now) := by
    rw [answer_load, script_basketSession]
    rfl
  refine ⟨?_, ?_, ?_⟩
  · exact ((hdescribed Settings.standard "").1 _).mpr ⟨_, hload "", by decide⟩
  · exact hconstructor _ _ _ 0 rfl script_basketSession (hload _) unbroken_basketScript
  · exact hprinted _ _ _ _ "" "" ofWords_describeWords ofWords_saveWords describeWords_done
      saveWords_done

end Advisor.Command
