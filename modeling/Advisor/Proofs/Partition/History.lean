import Advisor.Partition
import Mathlib.Data.List.Induction

/-!
# The history of a name

The declarations of one name, with their places in the script. The last one counts. The place of a
variable among those of its kind is that of the declaration from which on it never changed its
kind again.
-/

namespace Advisor.Partition

/-- What the declarations give that are picked, each with its place in the script. -/
def occurrences {α : Type} (pick : Declaration → Option α) (ds : List Declaration) :
    List (Nat × α) :=
  ds.zipIdx.filterMap fun e => (pick e.1).map fun a => (e.2, a)

def variableNamed (name : String) : Declaration → Option Variable
  | .variable v => if v.name = name then some v else none
  | _ => none

def functionNamed (name : String) : Declaration → Option Function
  | .function f => if f.name = name then some f else none
  | _ => none

def variablesNamed (ds : List Declaration) (name : String) : List (Nat × Variable) :=
  occurrences (variableNamed name) ds

def functionsNamed (ds : List Declaration) (name : String) : List (Nat × Function) :=
  occurrences (functionNamed name) ds

def last {α : Type} (history : List (Nat × α)) : Option α := history.getLast?.map (·.2)

/-- The longest end of a history on which all variables are inputs or none is. -/
def lastRun : List (Nat × Variable) → List (Nat × Variable)
  | [] => []
  | e :: rest => if rest.all (·.2.isInput = e.2.isInput) then e :: rest else lastRun rest

/-- The place of the first entry, or zero if there is none. -/
def firstPlace {α : Type} (history : List (Nat × α)) : Nat := (history.head?.map (·.1)).getD 0

/-- The place of the declaration from which on the name stays in its list. -/
def seat (ds : List Declaration) (name : String) : Nat := firstPlace (lastRun (variablesNamed ds name))

def firstSeat (ds : List Declaration) (name : String) : Nat := firstPlace (functionsNamed ds name)

private theorem occurrences_concat {α : Type} (pick : Declaration → Option α)
    (ds : List Declaration) (d : Declaration) :
    occurrences pick (ds ++ [d])
      = occurrences pick ds ++ ((pick d).map fun a => (ds.length, a)).toList := by
  rw [occurrences, List.zipIdx_append, List.filterMap_append, occurrences]
  congr 1
  cases h : pick d <;> simp [h]

private theorem mem_occurrences {α : Type} {pick : Declaration → Option α} {ds : List Declaration}
    {e : Nat × α} (he : e ∈ occurrences pick ds) :
    e.1 < ds.length ∧ ∃ d ∈ ds, pick d = some e.2 := by
  obtain ⟨⟨d, i⟩, hd, hpick⟩ := List.mem_filterMap.mp he
  obtain ⟨a, ha, rfl⟩ := Option.map_eq_some_iff.mp hpick
  have hi := List.mem_zipIdx hd
  refine ⟨by simpa using hi.2.1, d, ?_, ha⟩
  rw [hi.2.2]
  exact List.getElem_mem _

private theorem occurrences_eq_nil_iff {α : Type} {pick : Declaration → Option α}
    {ds : List Declaration} :
    occurrences pick ds = [] ↔ ∀ d ∈ ds, pick d = none := by
  rw [occurrences, List.filterMap_eq_nil_iff]
  constructor
  · intro h d hd
    obtain ⟨i, hi⟩ := List.mem_iff_getElem?.mp hd
    have hnone := h (d, i) (List.mem_zipIdx_iff_getElem?.mpr hi)
    simpa using hnone
  · intro h e he
    have hmem : e.1 ∈ ds := List.mem_iff_getElem?.mpr ⟨e.2, List.mem_zipIdx_iff_getElem?.mp he⟩
    rw [h e.1 hmem]
    rfl

@[simp] theorem last_nil {α : Type} : last ([] : List (Nat × α)) = none := rfl

@[simp] theorem last_concat {α : Type} (history : List (Nat × α)) (e : Nat × α) :
    last (history ++ [e]) = some e.2 := by simp [last]

theorem last_eq_none_iff {α : Type} {history : List (Nat × α)} :
    last history = none ↔ history = [] := by simp [last]

private theorem mem_of_last {α : Type} {history : List (Nat × α)} {a : α}
    (h : last history = some a) :
    ∃ i, (i, a) ∈ history := by
  obtain ⟨⟨i, b⟩, hb, rfl⟩ := Option.map_eq_some_iff.mp h
  exact ⟨i, List.mem_of_getLast? hb⟩

private theorem lastRun_suffix (history : List (Nat × Variable)) : lastRun history <:+ history := by
  induction history with
  | nil => exact List.suffix_refl _
  | cons e rest ih =>
    rw [lastRun]
    split
    · exact List.suffix_refl _
    · exact ih.trans (List.suffix_cons _ _)

private theorem lastRun_uniform {history : List (Nat × Variable)} {a b : Nat × Variable}
    (ha : a ∈ lastRun history) (hb : b ∈ lastRun history) : a.2.isInput = b.2.isInput := by
  induction history with
  | nil => simp [lastRun] at ha
  | cons e rest ih =>
    rw [lastRun] at ha hb
    split at ha
    · next uniform =>
      have flag : ∀ x ∈ e :: rest, x.2.isInput = e.2.isInput := by
        simpa using uniform
      rw [if_pos uniform] at hb
      rw [flag a ha, flag b hb]
    · next mixed =>
      rw [if_neg mixed] at hb
      exact ih ha hb

private theorem suffix_lastRun {history ending : List (Nat × Variable)} (hs : ending <:+ history)
    (uniform : ∀ a ∈ ending, ∀ b ∈ ending, a.2.isInput = b.2.isInput) :
    ending <:+ lastRun history := by
  induction history with
  | nil => simpa [lastRun] using hs
  | cons e rest ih =>
    rw [lastRun]
    split
    · exact hs
    · next mixed =>
      rcases List.suffix_cons_iff.mp hs with rfl | hs
      · have flag : rest.all (·.2.isInput = e.2.isInput) = true := by
          simpa using fun i v hv => uniform (i, v) (List.mem_cons_of_mem _ hv) e List.mem_cons_self
        exact absurd flag mixed
      · exact ih hs

private theorem lastRun_concat (history : List (Nat × Variable)) (e : Nat × Variable) :
    lastRun (history ++ [e])
      = if (last history).map (·.isInput) = some e.2.isInput then lastRun history ++ [e]
        else [e] := by
  induction history with
  | nil => simp [lastRun, last]
  | cons a rest ih =>
    rw [List.cons_append, lastRun, ih, lastRun]
    rcases List.eq_nil_or_concat rest with rfl | ⟨init, z, rfl⟩
    · by_cases h : e.2.isInput = a.2.isInput <;> simp [last, h, eq_comm]
    · have hz : last (a :: (init ++ [z])) = some z.2 := by
        simp [last, List.getLast?_cons]
      have hz' : last (init ++ [z]) = some z.2 := by simp [last]
      simp only [List.concat_eq_append, hz, hz', Option.map_some, Option.some.injEq]
      by_cases joins : z.2.isInput = e.2.isInput
      · simp only [joins, if_true]
        by_cases uniform : (init ++ [z]).all (·.2.isInput = a.2.isInput) = true
        · have hza : z.2.isInput = a.2.isInput := by
            simp only [List.all_append, Bool.and_eq_true] at uniform
            simpa using uniform.2
          rw [if_pos uniform, if_pos]
          · rfl
          · simp only [List.all_append, uniform, Bool.true_and]
            simpa using joins.symm.trans hza
        · rw [if_neg uniform, if_neg]
          simp only [List.all_append, Bool.and_eq_true]
          exact fun h => uniform (by simpa only [List.all_append, Bool.and_eq_true] using h.1)
      · simp only [joins, if_false]
        rw [if_neg]
        intro h
        simp only [List.all_append, Bool.and_eq_true, List.all_cons, List.all_nil, Bool.and_true,
          decide_eq_true_eq] at h
        exact joins (h.1.2.trans h.2.symm)

private theorem lastRun_ne_nil {history : List (Nat × Variable)} (h : history ≠ []) :
    lastRun history ≠ [] := by
  rcases List.eq_nil_or_concat history with rfl | ⟨init, e, rfl⟩
  · exact absurd rfl h
  · rw [List.concat_eq_append, lastRun_concat]
    split <;> simp

private theorem firstPlace_append {α : Type} {history : List (Nat × α)} (more : List (Nat × α))
    (h : history ≠ []) : firstPlace (history ++ more) = firstPlace history := by
  cases history with
  | nil => exact absurd rfl h
  | cons e rest => rfl

private theorem firstPlace_mem {α : Type} {history : List (Nat × α)} (h : history ≠ []) :
    ∃ e ∈ history, firstPlace history = e.1 := by
  cases history with
  | nil => exact absurd rfl h
  | cons e rest => exact ⟨e, List.mem_cons_self, rfl⟩

/-- The last run goes back to where the flag changed last. -/
theorem seat_spec {ds : List Declaration} {n : String} (h : variablesNamed ds n ≠ []) :
    ∃ before e after, variablesNamed ds n = before ++ e :: after ∧ seat ds n = e.1 ∧
      (∀ a ∈ after, a.2.isInput = e.2.isInput) ∧
      ∀ b, last before = some b → b.isInput ≠ e.2.isInput := by
  obtain ⟨e, after, hrun⟩ := List.exists_cons_of_ne_nil (lastRun_ne_nil h)
  obtain ⟨before, hsplit⟩ := lastRun_suffix (variablesNamed ds n)
  have uniform : ∀ a ∈ e :: after, a.2.isInput = e.2.isInput := by
    intro a ha
    rw [← hrun] at ha
    exact lastRun_uniform ha (hrun ▸ List.mem_cons_self)
  refine ⟨before, e, after, by rw [← hrun, hsplit], by rw [seat, hrun]; rfl,
    fun a ha => uniform a (List.mem_cons_of_mem _ ha), ?_⟩
  intro b hb hflag
  obtain ⟨⟨i, b'⟩, hlast, rfl⟩ := Option.map_eq_some_iff.mp hb
  obtain ⟨init, rfl⟩ := List.getLast?_eq_some_iff.mp hlast
  have longer : (i, b') :: e :: after <:+ lastRun (variablesNamed ds n) := by
    apply suffix_lastRun
    · exact ⟨init, by rw [← hsplit, hrun, List.append_assoc, List.singleton_append]⟩
    · have flag : ∀ a ∈ (i, b') :: e :: after, a.2.isInput = e.2.isInput := by
        intro a ha
        rcases List.mem_cons.mp ha with rfl | ha
        · exact hflag
        · exact uniform a ha
      intro a ha c hc
      rw [flag a ha, flag c hc]
  have hlen := longer.length_le
  rw [hrun] at hlen
  exact Nat.not_succ_le_self _ hlen

theorem variablesNamed_concat (ds : List Declaration) (v : Variable) (n : String) :
    variablesNamed (ds ++ [.variable v]) n
      = if n = v.name then variablesNamed ds n ++ [(ds.length, v)] else variablesNamed ds n := by
  rw [variablesNamed, occurrences_concat, variableNamed]
  by_cases h : n = v.name
  · simp [h, variablesNamed]
  · simp [h, Ne.symm h, variablesNamed]

theorem functionsNamed_concat (ds : List Declaration) (f : Function) (n : String) :
    functionsNamed (ds ++ [.function f]) n
      = if n = f.name then functionsNamed ds n ++ [(ds.length, f)] else functionsNamed ds n := by
  rw [functionsNamed, occurrences_concat, functionNamed]
  by_cases h : n = f.name
  · simp [h, functionsNamed]
  · simp [h, Ne.symm h, functionsNamed]

theorem variablesNamed_concat_other (ds : List Declaration) {d : Declaration}
    (h : ∀ v, d ≠ .variable v) : variablesNamed (ds ++ [d]) = variablesNamed ds := by
  funext n
  rcases d with v | f | kind
  · exact absurd rfl (h v)
  all_goals simp [variablesNamed, occurrences_concat, variableNamed]

theorem functionsNamed_concat_other (ds : List Declaration) {d : Declaration}
    (h : ∀ f, d ≠ .function f) : functionsNamed (ds ++ [d]) = functionsNamed ds := by
  funext n
  rcases d with v | f | kind
  · simp [functionsNamed, occurrences_concat, functionNamed]
  · exact absurd rfl (h f)
  · simp [functionsNamed, occurrences_concat, functionNamed]

theorem variablesNamed_eq_nil_iff {ds : List Declaration} {n : String} :
    variablesNamed ds n = [] ↔ ∀ v, .variable v ∈ ds → v.name ≠ n := by
  rw [variablesNamed, occurrences_eq_nil_iff]
  constructor
  · intro h v hv hname
    simpa [variableNamed, hname] using h _ hv
  · intro h d hd
    rcases d with v | f | kind
    · exact if_neg (h v hd)
    · rfl
    · rfl

theorem functionsNamed_eq_nil_iff {ds : List Declaration} {n : String} :
    functionsNamed ds n = [] ↔ ∀ f, .function f ∈ ds → f.name ≠ n := by
  rw [functionsNamed, occurrences_eq_nil_iff]
  constructor
  · intro h f hf hname
    simpa [functionNamed, hname] using h _ hf
  · intro h d hd
    rcases d with v | f | kind
    · rfl
    · exact if_neg (h f hd)
    · rfl

theorem declared_of_last_variable {ds : List Declaration} {n : String} {v : Variable}
    (h : last (variablesNamed ds n) = some v) : .variable v ∈ ds ∧ v.name = n := by
  obtain ⟨i, hi⟩ := mem_of_last h
  obtain ⟨-, d, hmem, hd⟩ := mem_occurrences hi
  rcases d with u | f | kind
  · obtain ⟨hname, rfl⟩ : u.name = n ∧ u = v := by simpa [variableNamed] using hd
    exact ⟨hmem, hname⟩
  · simp [variableNamed] at hd
  · simp [variableNamed] at hd

theorem declared_of_last_function {ds : List Declaration} {n : String} {f : Function}
    (h : last (functionsNamed ds n) = some f) : .function f ∈ ds ∧ f.name = n := by
  obtain ⟨i, hi⟩ := mem_of_last h
  obtain ⟨-, d, hmem, hd⟩ := mem_occurrences hi
  rcases d with v | g | kind
  · simp [functionNamed] at hd
  · obtain ⟨hname, rfl⟩ : g.name = n ∧ g = f := by simpa [functionNamed] using hd
    exact ⟨hmem, hname⟩
  · simp [functionNamed] at hd

theorem name_of_last_variable {ds : List Declaration} {n : String} {v : Variable}
    (h : last (variablesNamed ds n) = some v) : v.name = n := (declared_of_last_variable h).2

theorem name_of_last_function {ds : List Declaration} {n : String} {f : Function}
    (h : last (functionsNamed ds n) = some f) : f.name = n := (declared_of_last_function h).2

theorem seat_lt_length {ds : List Declaration} {n : String} {v : Variable}
    (h : last (variablesNamed ds n) = some v) : seat ds n < ds.length := by
  have hne : variablesNamed ds n ≠ [] := by
    intro hnil
    rw [hnil] at h
    simp at h
  obtain ⟨e, he, hplace⟩ := firstPlace_mem (lastRun_ne_nil hne)
  rw [seat, hplace]
  exact (mem_occurrences ((lastRun_suffix _).subset he)).1

theorem firstSeat_lt_length {ds : List Declaration} {n : String} {f : Function}
    (h : last (functionsNamed ds n) = some f) : firstSeat ds n < ds.length := by
  have hne : functionsNamed ds n ≠ [] := by
    intro hnil
    rw [hnil] at h
    simp at h
  obtain ⟨e, he, hplace⟩ := firstPlace_mem hne
  rw [firstSeat, hplace]
  exact (mem_occurrences he).1

theorem seat_concat_other (ds : List Declaration) {d : Declaration} (h : ∀ v, d ≠ .variable v) :
    seat (ds ++ [d]) = seat ds := by
  funext n
  rw [seat, variablesNamed_concat_other ds h, seat]

theorem firstSeat_concat_other (ds : List Declaration) {d : Declaration}
    (h : ∀ f, d ≠ .function f) : firstSeat (ds ++ [d]) = firstSeat ds := by
  funext n
  rw [firstSeat, functionsNamed_concat_other ds h, firstSeat]

/-- A variable declared again as what it was keeps its seat; any other takes a new one. -/
theorem seat_concat (ds : List Declaration) (v : Variable) (n : String) :
    seat (ds ++ [.variable v]) n
      = if n = v.name then
          if (last (variablesNamed ds n)).map (·.isInput) = some v.isInput then seat ds n
          else ds.length
        else seat ds n := by
  rw [seat, variablesNamed_concat, seat]
  by_cases hn : n = v.name
  · simp only [hn, if_true, lastRun_concat]
    split
    · next joins =>
      apply firstPlace_append
      apply lastRun_ne_nil
      intro hnil
      simp [hnil] at joins
    · rfl
  · simp [hn]

theorem firstSeat_concat (ds : List Declaration) (f : Function) (n : String) :
    firstSeat (ds ++ [.function f]) n
      = if n = f.name ∧ last (functionsNamed ds n) = none then ds.length else firstSeat ds n := by
  rw [firstSeat, functionsNamed_concat, firstSeat]
  by_cases hn : n = f.name
  · by_cases hnil : functionsNamed ds n = []
    · simp only [hn] at hnil ⊢
      simp [hnil, firstPlace]
    · simp only [hn, if_true] at hnil ⊢
      simp [hnil, firstPlace_append, last_eq_none_iff]
  · simp [hn]

end Advisor.Partition
