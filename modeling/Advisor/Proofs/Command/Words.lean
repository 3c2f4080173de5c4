import Advisor.Command.Basic

/-!
# The words of a command

A command to translate is read from the words that name its files, whichever of its options are given.
-/

namespace Advisor.Command

/-- An option with its value, or nothing. -/
def optionWords (option : String) : Option String → List String
  | none => []
  | some value => [option, value]

/-- What the words of an option are read as. -/
def given (s : Switch) (value : Option String) : List (Switch × String) := value.toList.map (s, ·)

/-- A path as a word by itself. -/
def Plain (path : String) : Prop := path ≠ "" ∧ isDashed path = false

variable {k : List Switch} {r s : Switch} {w : String} {value : Option String}
  {rest : List String} {a : Arguments} {values : List (Switch × String)}

private theorem value?_given (ops : List String) :
    (⟨ops, given s value ++ values⟩ : Arguments).value? s
      = value.or ((⟨ops, values⟩ : Arguments).value? s) := by
  cases value <;> simp [given, Arguments.value?]

private theorem value?_given_of_ne (ops : List String) (h : r ≠ s) :
    (⟨ops, given r value ++ values⟩ : Arguments).value? s
      = (⟨ops, values⟩ : Arguments).value? s := by
  cases value <;> simp [given, Arguments.value?, h]

private theorem all_given (h : ∀ path ∈ value, Plain path) :
    (given s value).all (·.2 ≠ "") = true := by
  cases value with
  | none => rfl
  | some path => simpa [given] using (h path rfl).1

private theorem Plain.ofWords_operand (h : Plain w) : Arguments.ofWords k (w :: rest)
    = (Arguments.ofWords k rest).map (Arguments.withOperand w) := by
  have hdashes : w ≠ "--" := by
    rintro rfl
    exact absurd h.2 (by decide)
  rw [Arguments.ofWords, if_neg hdashes, h.2, if_neg Bool.false_ne_true]

private theorem ofWords_option (hword : isDashed w = true ∧ w ≠ "--")
    (hnamed : named k w = some (s, none))
    (hvalue : ∀ path ∈ value, Plain path) (hrest : Arguments.ofWords k rest = some a)
    (hfresh : a.value? s = none) :
    Arguments.ofWords k (optionWords w value ++ rest)
      = some ⟨a.operands, given s value ++ a.values⟩ := by
  cases value with
  | none => exact hrest
  | some path =>
    have hplain := (hvalue path rfl).2
    change Arguments.ofWords k (w :: path :: rest) = _
    rw [Arguments.ofWords, if_neg hword.2, if_pos hword.1, hnamed]
    simp only [hplain, hrest, Bool.false_eq_true, if_false, Option.bind_some, Arguments.withValue,
      hfresh, Option.isSome_none]
    rfl

section

variable {script : String} {code descriptors settings : Option String}

/-- The arguments of a command to translate. -/
def translateArguments (script : String) (code descriptors settings : Option String) : Arguments :=
  ⟨[script], given codeSwitch code
    ++ (given descriptorsSwitch descriptors ++ (given settingsSwitch settings ++ []))⟩

private theorem paths_translateArguments (hscript : Plain script)
    (hcode : ∀ path ∈ code, Plain path)
    (hdescriptors : ∀ path ∈ descriptors, Plain path) (hsettings : ∀ path ∈ settings, Plain path) :
    paths (translateArguments script code descriptors settings)
      = some (translateArguments script code descriptors settings) := by
  have hoperand : decide (script ≠ "") = true := decide_eq_true hscript.1
  simp only [paths, translateArguments, List.all_cons, List.all_append, List.all_nil, hoperand,
    all_given hcode, all_given hdescriptors, all_given hsettings, Bool.and_true, if_true]

private theorem values_translateArguments (script : String)
    (code descriptors settings : Option String) :
    (translateArguments script code descriptors settings).value? codeSwitch = code ∧
      (translateArguments script code descriptors settings).value? descriptorsSwitch = descriptors ∧
      (translateArguments script code descriptors settings).value? settingsSwitch = settings := by
  refine ⟨?_, ?_, ?_⟩
  · rw [translateArguments, value?_given, value?_given_of_ne _ (by decide),
      value?_given_of_ne _ (by decide)]
    exact Option.or_none
  · rw [translateArguments, value?_given_of_ne _ (by decide), value?_given,
      value?_given_of_ne _ (by decide)]
    exact Option.or_none
  · rw [translateArguments, value?_given_of_ne _ (by decide), value?_given_of_ne _ (by decide),
      value?_given]
    exact Option.or_none

theorem ofWords_translate (hscript : Plain script) (hcode : ∀ path ∈ code, Plain path)
    (hdescriptors : ∀ path ∈ descriptors, Plain path) (hsettings : ∀ path ∈ settings, Plain path) :
    ofWords ("translate" :: script :: (optionWords "--out" code
        ++ (optionWords "--metadata" descriptors ++ (optionWords "--config" settings ++ []))))
      = some (.translate script code descriptors settings) := by
  let known := [codeSwitch, descriptorsSwitch, settingsSwitch]
  have hverb (words : List String) : ofWords ("translate" :: words) = ofVerb "translate" words := by
    unfold ofWords ofWordsFrom
    rw [if_neg (by decide), if_neg (by decide)]
  have hnone : Arguments.ofWords known [] = some ⟨[], []⟩ := rfl
  have hconfig := ofWords_option (k := known) (w := "--config") (s := settingsSwitch) (by decide)
    (by decide) hsettings hnone rfl
  have hmetadata := ofWords_option (k := known) (w := "--metadata") (s := descriptorsSwitch)
    (by decide) (by decide) hdescriptors hconfig (value?_given_of_ne [] (by decide))
  have hout := ofWords_option (k := known) (w := "--out") (s := codeSwitch) (by decide) (by decide)
    hcode hmetadata ((value?_given_of_ne [] (by decide)).trans (value?_given_of_ne [] (by decide)))
  have hpaths := paths_translateArguments hscript hcode hdescriptors hsettings
  obtain ⟨hcodes, hdescriptions, hsets⟩ :=
    values_translateArguments script code descriptors settings
  rw [hverb, ofVerb, hscript.ofWords_operand, hout, Option.map_some]
  change (paths (translateArguments script code descriptors settings) >>= _) = _
  rw [hpaths]
  change some (translate script
    ((translateArguments script code descriptors settings).value? codeSwitch) _ _) = _
  rw [hcodes, hdescriptions, hsets]

end

end Advisor.Command
