import Advisor.Proofs.JavaScript.Fragment
import Advisor.Proofs.JavaScript.Program

/-!
# Members of a class

A program is read back as a class: each member is a name, parameters in parentheses and a body in
braces, and the constructor assigns fields of the object, one with each statement. What is found in
the program of a script are the constructor and one member for each of its functions, and the fields
of the trading interface, the inputs and the globals.
-/

namespace Advisor.JavaScript

/-- How many brackets are open behind the token, unless it closes one that is open in front of all
of them. -/
def depthBehind (depth : Nat) : Token → Option Nat
  | .mark mark =>
    if mark ∈ opening then some (depth + 1)
    else if mark ∈ closing then if depth = 0 then none else some (depth - 1)
    else some depth
  | _ => some depth

/-- Splits where the bracket is closed that is open in front of the tokens, with so many others
inside of it. -/
def closeGroup : Nat → List Token → List Token × List Token
  | _, [] => ([], [])
  | depth, t :: rest =>
    match depthBehind depth t with
    | none => ([], rest)
    | some inner => (t :: (closeGroup inner rest).1, (closeGroup inner rest).2)

/-- What stands in the brackets at the beginning of the tokens, and what behind them. -/
def group? (bracket : List Char) : List Token → Option (List Token × List Token)
  | .mark mark :: rest => if mark = bracket then some (closeGroup 0 rest) else none
  | _ => none

structure Member where
  name : List Char
  parameters : List Token
  body : List Token
deriving DecidableEq, Repr

/-- The member at the beginning of the tokens, and what is behind it. -/
def member? : List Token → Option (Member × List Token)
  | .word name :: rest => do
    let (parameters, rest) ← group? ['('] rest
    let (body, rest) ← group? ['\x7b'] rest
    return (⟨name, parameters, body⟩, rest)
  | _ => none

/-- The members at the beginning of the tokens, of which at most so many are taken. -/
def membersUpTo : Nat → List Token → List Member
  | 0, _ => []
  | n + 1, ts =>
    match member? ts with
    | none => []
    | some (m, rest) => m :: membersUpTo n rest

/-- The members of the class that a program declares: those inside its first brace. -/
def members (ts : List Token) : List Member :=
  match group? ['\x7b'] (ts.dropWhile (· ≠ .mark ['\x7b'])) with
  | none => []
  | some (inside, _) => membersUpTo inside.length inside

/-- A field of the object, with what is assigned to it. -/
structure Assignment where
  field : List Char
  value : List Token
deriving DecidableEq, Repr

def assignment? : List Token → Option Assignment
  | .word object :: .mark dot :: .word field :: .mark equals :: value =>
    if object = "this".toList ∧ dot = ['.'] ∧ equals = ['='] then some ⟨field, value⟩ else none
  | _ => none

/-- The fields that the statements assign, in order. -/
def assigned (ts : List Token) : List Assignment :=
  (ts.splitOn (.mark [';'])).filterMap assignment?

/-- A class: the fields that its constructor assigns, and its other members. -/
structure Class where
  fields : List Assignment
  methods : List Member
deriving DecidableEq, Repr

/-- The class that a program declares, if its first member is the constructor. -/
def class? (ts : List Token) : Option Class :=
  match members ts with
  | [] => none
  | first :: methods =>
    if first.name = "constructor".toList then some ⟨assigned first.body, methods⟩ else none

section Groups

variable {stack inner : List (List Char)} {ts : List Token} {top mark : List Char}

private theorem depthBehind_of_bracket (h : bracket stack mark = some inner) :
    depthBehind stack.length (.mark mark) = some inner.length := by
  have hnone : ([], mark) ∉ opening.zip closing := by
    intro hmem
    exact absurd (List.of_mem_zip hmem).1 (by decide)
  rw [bracket] at h
  rw [depthBehind]
  split at h
  · next hopen =>
    rw [if_pos hopen, ← Option.some.inj h]
    rfl
  next hopen =>
  rw [if_neg hopen]
  split at h
  · next hclose =>
    rw [if_pos hclose]
    cases stack with
    | nil => simp [hnone] at h
    | cons top stack =>
      split at h
      · rw [if_neg (by simp), ← Option.some.inj h]
        rfl
      · simp at h
  · next hclose => rw [if_neg hclose, ← Option.some.inj h]

private theorem closeGroup_append (h : nest stack ts = some []) (hmark : mark ∈ closing)
    (rest : List Token) :
    closeGroup stack.length (ts ++ .mark mark :: rest) = (ts, rest) := by
  have hnotOpen : ∀ mark ∈ closing, mark ∉ opening := by decide
  induction ts generalizing stack with
  | nil =>
    obtain rfl : stack = [] := Option.some.inj h
    simp [closeGroup, depthBehind, hnotOpen mark hmark, hmark]
  | cons t ts ih =>
    rw [List.cons_append, closeGroup]
    cases t with
    | mark m =>
      rw [nest_cons] at h
      obtain ⟨inner, hinner, hrest⟩ := Option.bind_eq_some_iff.mp h
      rw [depthBehind_of_bracket hinner]
      simp only [ih hrest]
    | word | number | text | comment | remark | junk =>
      have hrest : nest stack ts = some [] := h
      simp only [depthBehind, ih hrest]

/-- What leaves no bracket open is all that stands in the brackets around it. -/
theorem group_append (h : Neutral ts) (hpair : (top, mark) ∈ opening.zip closing)
    (rest : List Token) : group? top (.mark top :: (ts ++ .mark mark :: rest)) = some (ts, rest) := by
  rw [group?, if_pos rfl]
  exact congrArg some (closeGroup_append (h.nest []) (List.of_mem_zip hpair).2 rest)

private theorem group_bracedTokens (h : Neutral ts) (rest : List Token) :
    group? ['\x7b'] (Statement.bracedTokens ts ++ rest) = some (ts, rest) := by
  have hpair : (['\x7b'], ['\x7d']) ∈ opening.zip closing := by decide
  have hgroup := group_append h hpair rest
  simpa [Statement.bracedTokens] using hgroup

private theorem member_append (name : List Char) {parameters body : List Token}
    (hparameters : Neutral parameters) (hbody : Neutral body) (rest : List Token) :
    member? (.word name :: .mark ['('] :: (parameters ++ .mark [')']
      :: (Statement.bracedTokens body ++ rest))) = some (⟨name, parameters, body⟩, rest) := by
  rw [member?, group_append hparameters (by decide)]
  simp only [Option.bind_eq_bind, Option.bind_some, group_bracedTokens hbody, Option.pure_def]

private theorem membersUpTo_append {ts : List Token} {m : Member} {rest : List Token} {n : Nat}
    (h : ∀ rest, member? (ts ++ rest) = some (m, rest)) (hn : (ts ++ rest).length ≤ n) :
    ∃ k, rest.length ≤ k ∧ membersUpTo n (ts ++ rest) = m :: membersUpTo k rest := by
  have hne : ts ≠ [] := by
    rintro rfl
    have hnil := h []
    simp [member?] at hnil
  have hlength := List.length_pos_of_ne_nil hne
  rw [List.length_append] at hn
  cases n with
  | zero => omega
  | succ k =>
    refine ⟨k, by omega, ?_⟩
    rw [membersUpTo, h]

private theorem membersUpTo_flatMap {α : Type} {tokens : α → List Token} {member : α → Member}
    {as : List α}
    (h : ∀ a ∈ as, ∀ rest, member? (tokens a ++ rest) = some (member a, rest)) {n : Nat}
    (hn : (as.flatMap tokens).length ≤ n) : membersUpTo n (as.flatMap tokens) = as.map member := by
  induction as generalizing n with
  | nil => cases n <;> rfl
  | cons a as ih =>
    obtain ⟨ha, has⟩ := List.forall_mem_cons.mp h
    rw [List.flatMap_cons] at hn ⊢
    obtain ⟨k, hk, hmembers⟩ := membersUpTo_append ha hn
    rw [hmembers, ih has hk, List.map_cons]

end Groups

section Program

variable {c : Context} {p : Partition}

/-- The member that a function becomes. -/
def methodOf (c : Context) (f : Function) : Member :=
  ⟨f.name.toList, parameterTokens f, f.body.tokens c⟩

/-- What is assigned to the field of an input: what the caller gives or else its own value. -/
def inputValue (c : Context) (v : Variable) : List Token :=
  fieldTokens "parameters" v.name ++ .mark ['!', '=', '='] :: .word "undefined".toList :: .mark ['?']
    :: (fieldTokens "parameters" v.name ++ .mark [':'] :: v.initialTokens c)

def assignmentTokens (c : Context) (p : Partition) : List Token :=
  apiTokens ++ (p.inputs.flatMap (inputTokens c) ++ p.globals.flatMap (globalTokens c))

def constructorOf (c : Context) (p : Partition) : Member :=
  ⟨"constructor".toList, [.word "parameters".toList, .mark ['='], .mark ['\x7b'], .mark ['\x7d'],
    .mark [','], .word "api".toList], assignmentTokens c p⟩

/-- The fields of the object, with what the constructor assigns to them. -/
def fieldsOf (c : Context) (p : Partition) : List Assignment :=
  ⟨"api".toList, [.word "api".toList]⟩
    :: (p.inputs.map (fun v => ⟨v.name.toList, inputValue c v⟩)
      ++ p.globals.map (fun v => ⟨v.name.toList, v.initialTokens c⟩))

def classOf (c : Context) (p : Partition) : Class :=
  ⟨fieldsOf c p, p.functions.map (methodOf c)⟩

private theorem member_methodTokens {f : Function} (hbody : Neutral (f.body.tokens c))
    (rest : List Token) :
    member? (methodTokens c f ++ rest) = some (methodOf c f, rest) := by
  have hmember := member_append f.name.toList (neutral_parameterTokens f) hbody rest
  simpa [methodTokens, methodOf, parameterTokens] using hmember

private theorem member_constructorTokens (h : Neutral (assignmentTokens c p)) (rest : List Token) :
    member? (constructorTokens c p ++ rest) = some (constructorOf c p, rest) := by
  have hparameters : Neutral [.word "parameters".toList, .mark ['='], .mark ['\x7b'],
      .mark ['\x7d'], .mark [','], .word "api".toList] :=
    neutral_of_nest (by decide)
  exact member_append _ hparameters h rest

private theorem assigned_append (field : String) {value : List Token} (hvalue : .mark [';'] ∉ value)
    (rest : List Token) :
    assigned (memberTokens field ++ .mark ['='] :: (value ++ .mark [';'] :: rest))
      = ⟨field.toList, value⟩ :: assigned rest := by
  have hstatement : .mark [';'] ∉ memberTokens field ++ .mark ['='] :: value := by
    simp [memberTokens, fieldTokens, hvalue]
  have hsplit := List.splitOn_append_cons_self_of_not_mem hstatement rest
  rw [List.append_assoc, List.cons_append] at hsplit
  rw [assigned, hsplit, List.filterMap_cons]
  rfl

private theorem assigned_nil : assigned [] = [] := rfl

private theorem assigned_flatMap {α : Type} {tokens : α → List Token} {field : α → Assignment}
    {as : List α} (h : ∀ a ∈ as, ∀ rest, assigned (tokens a ++ rest) = field a :: assigned rest)
    (rest : List Token) : assigned (as.flatMap tokens ++ rest) = as.map field ++ assigned rest := by
  induction as with
  | nil => rfl
  | cons a as ih =>
    obtain ⟨ha, has⟩ := List.forall_mem_cons.mp h
    rw [List.flatMap_cons, List.append_assoc, ha, ih has]
    rfl

private theorem semicolon_not_mem_initialTokens {v : Variable} (h : v.WellFormed) :
    .mark [';'] ∉ v.initialTokens c := by
  rw [Variable.initialTokens]
  cases hinitial : v.initial with
  | none => exact (plain_typeDefault v.type).semicolon
  | some e => exact semicolon_not_mem_tokens (h.2 e hinitial)

/-- The constructor stores the trading interface and then what is in the lists of variables. -/
theorem assigned_assignmentTokens (h : ScannablePartition p) :
    assigned (assignmentTokens c p) = fieldsOf c p := by
  have hinput : ∀ v ∈ p.inputs, ∀ rest, assigned (inputTokens c v ++ rest)
      = ⟨v.name.toList, inputValue c v⟩ :: assigned rest := by
    intro v hv rest
    have hinitial : .mark [';'] ∉ v.initialTokens c :=
      semicolon_not_mem_initialTokens (h.inputs v hv).1
    have hvalue : .mark [';'] ∉ inputValue c v := by
      simp [inputValue, fieldTokens, hinitial]
    have hassigned := assigned_append v.name hvalue rest
    simpa [inputTokens, inputValue] using hassigned
  have hglobal : ∀ v ∈ p.globals, ∀ rest, assigned (globalTokens c v ++ rest)
      = ⟨v.name.toList, v.initialTokens c⟩ :: assigned rest := by
    intro v hv rest
    have hinitial : .mark [';'] ∉ v.initialTokens c :=
      semicolon_not_mem_initialTokens (h.globals v hv).1
    have hassigned := assigned_append v.name hinitial rest
    simpa [globalTokens] using hassigned
  have hapi (rest : List Token) : assigned (apiTokens ++ rest)
      = ⟨"api".toList, [.word "api".toList]⟩ :: assigned rest := by
    have hvalue : .mark [';'] ∉ [Token.word "api".toList] := by decide
    exact assigned_append "api" hvalue rest
  have hglobals : assigned (p.globals.flatMap (globalTokens c))
      = p.globals.map fun v => ⟨v.name.toList, v.initialTokens c⟩ := by
    have hflat := assigned_flatMap hglobal []
    rwa [List.append_nil, assigned_nil, List.append_nil] at hflat
  rw [assignmentTokens, hapi, assigned_flatMap hinput, hglobals, fieldsOf]

private theorem neutral_assignmentTokens (h : ScannablePartition p) :
    Neutral (assignmentTokens c p) := by
  have hinputs : Neutral (p.inputs.flatMap (inputTokens c)) := by
    apply neutral_flatMap
    intro v hv
    exact (fits_input (h.inputs v hv).1.1 (h.inputs v hv).scans (h.inputs v hv).neutral).neutral
  have hglobals : Neutral (p.globals.flatMap (globalTokens c)) := by
    apply neutral_flatMap
    intro v hv
    exact (fits_global (h.globals v hv).1.1 (h.globals v hv).scans (h.globals v hv).neutral).neutral
  have hapi : Neutral apiTokens := neutral_of_nest (by decide)
  exact hapi.append (hinputs.append hglobals)

private theorem members_programTokens {script : Script} {settings : Settings} (now : String)
    (h : ScannablePartition (Partition.ofDeclarations script.declarations)) :
    members (programTokens script settings now)
      = constructorOf (Scope.contextOf script settings)
          (Partition.ofDeclarations script.declarations)
        :: (Partition.ofDeclarations script.declarations).functions.map
          (methodOf (Scope.contextOf script settings)) := by
  set c := Scope.contextOf script settings
  set p := Partition.ofDeclarations script.declarations
  have hassignments : Neutral (assignmentTokens c p) := neutral_assignmentTokens h
  have hconstructor : Neutral (constructorTokens c p) := (fits_constructor settings h).neutral
  have hmethods : Neutral (p.functions.flatMap (methodTokens c)) := by
    apply neutral_flatMap
    intro f hf
    exact (fits_method (h.functions f hf)).neutral
  have hbodies : ∀ f ∈ p.functions, ∀ rest,
      member? (methodTokens c f ++ rest) = some (methodOf c f, rest) := by
    intro f hf
    exact member_methodTokens (fits_lines (h.functions f hf).2).neutral
  have hinside : group? ['\x7b'] ((programTokens script settings now).dropWhile
      (· ≠ .mark ['\x7b']))
        = some (constructorTokens c p ++ p.functions.flatMap (methodTokens c),
          fieldTokens "module" "exports" ++ [.mark ['='], .word settings.className.toList,
            .mark [';']]) := by
    rw [← group_bracedTokens (hconstructor.append hmethods), ← List.append_assoc]
    rfl
  obtain ⟨k, hk, hmembers⟩ := membersUpTo_append (member_constructorTokens hassignments)
    (Nat.le_refl (constructorTokens c p ++ p.functions.flatMap (methodTokens c)).length)
  rw [members, hinside]
  simp only [hmembers, membersUpTo_flatMap hbodies hk]

/-- The class of a program is read back as what its partition holds. -/
theorem class_code {script : Script} {settings : Settings} {now : String}
    (hclass : Settings.isIdentifier settings.className = true)
    (hheader : ¬ ['*', '/'] <:+: headerBody script settings now)
    (h : ScannablePartition (Partition.ofDeclarations script.declarations)) :
    class? (scan (Translation.ofScript script settings now).code.toList)
      = some (classOf (Scope.contextOf script settings)
        (Partition.ofDeclarations script.declarations)) := by
  rw [scan_program hclass hheader h, class?, members_programTokens now h, classOf,
    ← assigned_assignmentTokens h]
  exact if_pos rfl

example : class? (scan ("class A \x7b constructor(api) \x7b this.api = api; this.n = 0; \x7d "
    ++ "n(x) \x7b \x7d \x7d").toList)
      = some ⟨[⟨['a', 'p', 'i'], [.word ['a', 'p', 'i']]⟩, ⟨['n'], [.number ['0']]⟩],
        [⟨['n'], [.word ['x']], []⟩]⟩ := by
  decide +kernel

end Program

end Advisor.JavaScript
