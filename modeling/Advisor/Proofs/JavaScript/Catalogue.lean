import Advisor.Host
import Advisor.Proofs.JavaScript.Atom
import Advisor.Proofs.JavaScript.Depth
import Advisor.Proofs.JavaScript.Nesting
import Advisor.Proofs.Script.WellFormed

/-!
# Operators and the host catalogue as tokens

The operators of the script language are marks of the generated one. What the catalogue puts in the
place of a name is scanned by itself, has no comment, and leaves no bracket open.
-/

namespace Advisor.JavaScript

/-- What an expression must not begin with: it would continue the operator in front of it, or stand
for blanks or a brace in front of a line. -/
def blocked : List Char := ['=', ' ', '\x7d']

/-- The text has a first character, which is not blocked. -/
def opens (text : String) : Bool := text.toList.head?.any (!blocked.contains ·)

theorem opens_iff {text : String} :
    opens text = true ↔ ∃ d more, text.toList = d :: more ∧ d ∉ blocked := by
  rw [opens]
  cases text.toList with
  | nil => simp
  | cons d more => simp

theorem opens_append {s t : String} (h : opens s = true) : opens (s ++ t) = true := by
  obtain ⟨d, more, hs, hd⟩ := opens_iff.mp h
  exact opens_iff.mpr ⟨d, more ++ t.toList, by simp [hs], hd⟩

theorem mark_of_binary : ∀ operator ∈ Operator.binary, operator.toList ∈ marks ∧
    ' ' ∉ followers operator.toList ∧
    operator.toList ∉ opening ++ closing ++ assignmentMarks := by
  decide +kernel

theorem mark_of_assignment : ∀ operator ∈ Operator.assignment, operator.toList ∈ marks ∧
    ' ' ∉ followers operator.toList ∧ operator.toList ∉ opening ++ closing ∧
    operator.toList ∈ assignmentMarks := by
  decide +kernel

theorem mark_of_leading : ∀ operator ∈ Operator.leading, operator.toList ∈ marks ∧
    ' ' ∉ followers operator.toList ∧
    operator.toList ∉ opening ++ closing ++ assignmentMarks ∧ opens operator = true ∧
    (followers operator.toList).all (fun d =>
      d = '=' ∨ operator.toList.getLast? = some d ∧ (d = '-' ∨ d = '+')) = true := by
  decide +kernel

theorem mark_of_trailing : ∀ operator ∈ Operator.trailing, operator.toList ∈ marks ∧
    followers operator.toList = [] ∧
    operator.toList ∉ opening ++ closing ++ assignmentMarks := by
  decide +kernel

/-- The words that a statement begins with if it has no other word behind them. -/
def statementWords : List (List Char) :=
  [['i', 'f'], ['f', 'o', 'r'], ['w', 'h', 'i', 'l', 'e'], ['r', 'e', 't', 'u', 'r', 'n'],
    ['b', 'r', 'e', 'a', 'k'], ['c', 'o', 'n', 't', 'i', 'n', 'u', 'e']]

/-- What tells from the tokens of a statement of which kind it is. There is none if it consists of
an expression only, which begins neither with two words nor with a comment up to the line end. -/
def keyword : List Token → Option (List Char)
  | .remark _ :: _ => some ['/', '/']
  | .word word :: .word _ :: _ => some word
  | .word word :: _ => if word ∈ statementWords then some word else none
  | _ => none

/-- A text that can stand in the place of a name. -/
structure Plain (text : String) : Prop where
  steady : steadyIfStopped text.toList = true
  opens : opens text = true
  closes : closes 0 (scan text.toList) = true
  slash : '/' ∉ text.toList
  newline : '\n' ∉ text.toList
  nest : nest [] (scan text.toList) = some []
  keyword : keyword (scan text.toList) = none
  semicolon : .mark [';'] ∉ scan text.toList

theorem Plain.scans {text : String} (h : Plain text) : Scans text (scan text.toList) :=
  scans_of_steady h.steady

theorem Plain.neutral {text : String} (h : Plain text) : Neutral (scan text.toList) :=
  neutral_of_nest h.nest

/-- Whether the characters, with these tokens, are those of a text that can stand in the place of a
name. -/
def plainly (cs : List Char) (ts : List Token) : Bool :=
  steadyIfStopped cs && cs.head?.any (!blocked.contains ·) && closes 0 ts && !cs.contains '/'
    && !cs.contains '\n' && nest [] ts == some [] && keyword ts == none && !ts.contains (.mark [';'])

private theorem plain_ofList (cs : List Char) (h : plainly cs (scan cs) = true) :
    Plain (String.ofList cs) := by
  simp only [plainly, Bool.and_eq_true, Bool.not_eq_true', beq_iff_eq] at h
  obtain ⟨⟨⟨⟨⟨⟨⟨hsteady, hopens⟩, hcloses⟩, hslash⟩, hnewline⟩, hnest⟩, hkeyword⟩, hsemicolon⟩ := h
  constructor
  · rwa [String.toList_ofList]
  · rwa [opens, String.toList_ofList]
  · rwa [String.toList_ofList]
  · rw [String.toList_ofList]
    simpa using hslash
  · rw [String.toList_ofList]
    simpa using hnewline
  · rwa [String.toList_ofList]
  · rwa [String.toList_ofList]
  · rw [String.toList_ofList]
    exact fun hmem => Bool.false_ne_true (hsemicolon.symm.trans (List.contains_iff_mem.mpr hmem))

private theorem plain_constants : ∀ entry ∈ Host.constants, Plain entry.2 := by
  simp only [Host.constants, List.forall_mem_cons, List.not_mem_nil, false_implies, implies_true,
    and_true]
  and_intros
  all_goals exact plain_ofList _ (by decide +kernel)

private theorem plain_functions : ∀ entry ∈ Host.functions, Plain entry.2 := by
  simp only [Host.functions, List.forall_mem_cons, List.not_mem_nil, false_implies, implies_true,
    and_true]
  and_intros
  all_goals exact plain_ofList _ (by decide +kernel)

private theorem plain_typeDefaults : ∀ entry ∈ Host.typeDefaults, Plain entry.2 := by
  simp only [Host.typeDefaults, List.forall_mem_cons, List.not_mem_nil, false_implies, implies_true,
    and_true]
  and_intros
  all_goals exact plain_ofList _ (by decide +kernel)

private theorem plain_of_lookup {table : List (String × String)} {name target : String}
    (hplain : ∀ entry ∈ table, Plain entry.2) (h : table.lookup name = some target) :
    Plain target := by
  obtain ⟨before, after, htable, -⟩ := List.lookup_eq_some_iff.mp h
  exact hplain (name, target) (by simp [htable])

theorem plain_constant {name target : String} (h : Host.constant? name = some target) :
    Plain target :=
  plain_of_lookup plain_constants h

theorem plain_function {name target : String} (h : Host.function? name = some target) :
    Plain target :=
  plain_of_lookup plain_functions h

theorem plain_typeDefault (type : String) : Plain (Host.typeDefault type) := by
  rw [Host.typeDefault]
  cases htype : Host.typeDefaults.lookup (String.ofList (type.toList.map Char.toLower)) with
  | none => exact plain_ofList _ (by decide +kernel)
  | some target => exact plain_of_lookup plain_typeDefaults htype

end Advisor.JavaScript
