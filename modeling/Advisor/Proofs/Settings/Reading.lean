import Advisor.Proofs.Json.RoundTrip
import Advisor.Proofs.Wire.Script
import Mathlib.Algebra.Group.Nat.Defs
import Mathlib.Data.Int.CharZero

/-!
# Settings are read as they are written

A field of settings that is left out has its standard value, whichever others are given and in
whatever order. So settings may be written without the fields that are standard, and with notes of
other names; but no field may be given twice, or be of another type than its own.
-/

namespace Advisor.Settings

open Wire

/-- The fields of the settings, with what is written under their names. -/
def entries (c : Settings) : List (String × Json.Document) :=
  [("className", .text (some c.className)), ("indent", .number (some (.integer c.indent))),
    ("includeTimestamp", .bool c.includeTimestamp),
    ("qualifyUserFunctions", .bool c.qualifyUserFunctions),
    ("qualifyInputs", .bool c.qualifyInputs)]

/-- What is given under the names of a document; an array gives the fields in declared order. -/
def given : Json.Document → List (String × Json.Document)
  | .object members _ => members.filterMap fun member => member.1.map (·, member.2)
  | .array items _ => fields.zip items
  | _ => []

/-- Whether the document is of the type of the field. -/
def Fits : String → Json.Document → Prop
  | "className", .text (some _) => True
  | "indent", .number (some (.integer i)) => 0 ≤ i
  | "includeTimestamp", .bool _ => True
  | "qualifyUserFunctions", .bool _ => True
  | "qualifyInputs", .bool _ => True
  | _, _ => False

section Readers

variable {e : Excerpt}

theorem text_eq_ok {s : String} : text e = .ok s ↔ e.document = .text (some s) := by
  obtain ⟨levels, document⟩ := e
  cases document with
  | number n => cases n <;> simp [text, Source.found?, Found.ofDocument?]
  | text t => cases t <;> simp [text, Source.found?, Found.ofDocument?]
  | _ => simp [text, Source.found?, Found.ofDocument?]

theorem flag_eq_ok {b : Bool} : flag e = .ok b ↔ e.document = .bool b := by
  obtain ⟨levels, document⟩ := e
  cases document with
  | number n => cases n <;> simp [flag, Source.found?, Found.ofDocument?]
  | text t => cases t <;> simp [flag, Source.found?, Found.ofDocument?]
  | _ => simp [flag, Source.found?, Found.ofDocument?]

private theorem size_eq_ok {n : Nat} :
    size e = .ok n ↔ e.document = .number (some (.integer n)) := by
  obtain ⟨levels, document⟩ := e
  cases document with
  | number i =>
    rcases i with _ | ⟨i | x⟩
    · simp [size, Source.found?, Found.ofDocument?]
    · by_cases hi : i < 0
      · simp [size, Source.found?, Found.ofDocument?, hi]
        omega
      · simp [size, Source.found?, Found.ofDocument?, hi]
        omega
    · simp [size, Source.found?, Found.ofDocument?]
  | text t => cases t <;> simp [size, Source.found?, Found.ofDocument?]
  | _ => simp [size, Source.found?, Found.ofDocument?]

end Readers

namespace Draft

/-- The draft in which these fields have been filled with the settings. -/
def ofNames (c : Settings) (names : List String) : Draft where
  className := if "className" ∈ names then some c.className else none
  indent := if "indent" ∈ names then some c.indent else none
  includeTimestamp := if "includeTimestamp" ∈ names then some c.includeTimestamp else none
  qualifyUserFunctions :=
    if "qualifyUserFunctions" ∈ names then some c.qualifyUserFunctions else none
  qualifyInputs := if "qualifyInputs" ∈ names then some c.qualifyInputs else none

private theorem put_ofNames {c : Settings} {names : List String} {name : String}
    {document : Json.Document}
    (hentry : (name, document) ∈ c.entries) (hname : name ∉ names) (levels : Nat) :
    put name (Excerpt.mk levels document) (ofNames c names) = .ok (ofNames c (name :: names)) := by
  simp only [entries, List.mem_cons, Prod.mk.injEq, List.not_mem_nil, or_false] at hentry
  rcases hentry with ⟨rfl, rfl⟩ | ⟨rfl, rfl⟩ | ⟨rfl, rfl⟩ | ⟨rfl, rfl⟩ | ⟨rfl, rfl⟩ <;>
    simp [put, ofNames, hname, once, text, size, flag, Source.found?, Found.ofDocument?]

/-- Whether the field has been read. -/
def has (d : Draft) : String → Bool
  | "className" => d.className.isSome
  | "indent" => d.indent.isSome
  | "includeTimestamp" => d.includeTimestamp.isSome
  | "qualifyUserFunctions" => d.qualifyUserFunctions.isSome
  | "qualifyInputs" => d.qualifyInputs.isSome
  | _ => false

private theorem of_put {name : String} {e : Excerpt} {d d' : Draft} (hname : name ∈ fields)
    (h : put name e d = .ok d') :
    d.has name = false ∧ Fits name e.document
      ∧ ∀ other, d'.has other = (decide (other = name) || d.has other) := by
  simp only [fields, List.mem_cons, List.not_mem_nil, or_false] at hname
  rcases hname with rfl | rfl | rfl | rfl | rfl
  all_goals
    simp only [put, bind_eq_ok, once_eq_ok, text_eq_ok, flag_eq_ok, size_eq_ok] at h
    obtain ⟨part, ⟨hblank, content, hdocument, rfl⟩, hd⟩ := h
    rw [← Except.ok.inj hd]
    refine ⟨by simp [has, hblank], by simp [Fits, hdocument], fun other => ?_⟩
    unfold has
    split <;> simp_all

private theorem finish_ofNames {c : Settings} (names : List String)
    (h : ∀ entry ∈ c.entries, entry.1 ∉ names → entry ∈ standard.entries) :
    (ofNames c names).finish = c := by
  simp only [entries, List.forall_mem_cons] at h
  obtain ⟨hclassName, hindent, htimestamp, hfunctions, hinputs, -⟩ := h
  obtain ⟨className, indent, timestamp, functions, inputs⟩ := c
  simp only [finish, ofNames, Settings.mk.injEq]
  refine ⟨?_, ?_, ?_, ?_, ?_⟩
  all_goals
    split
    · rfl
    · simp_all

end Draft

private theorem field?_eq (name : String) :
    record.field? name = if name ∈ fields then some name else none := by
  change fields.find? (fun field => decide (field = name)) = _
  cases hfind : fields.find? (fun field => decide (field = name)) with
  | none =>
    have hname : name ∉ fields := fun hmem => by simpa using List.find?_eq_none.mp hfind name hmem
    rw [if_neg hname]
  | some field =>
    obtain rfl : field = name := by simpa using List.find?_some hfind
    rw [if_pos (List.mem_of_find?_eq_some hfind)]

/-- No field has been read before or is read twice. -/
theorem countP_add_le_of_putMembers {levels : Nat} {members : List (Option String × Json.Document)}
    {d d' : Draft} (h : record.putMembers levels members d = .ok d') {name : String}
    (hname : name ∈ fields) :
    members.countP (·.1 = some name) + (d.has name).toNat ≤ 1 := by
  induction members generalizing d with
  | nil => cases d.has name <;> simp
  | cons member members ih =>
    obtain ⟨_ | key, document⟩ := member
    · simp [Record.putMembers] at h
    rw [Record.putMembers, field?_eq] at h
    by_cases hkey : key ∈ fields
    · rw [if_pos hkey] at h
      obtain ⟨between, hput, hrest⟩ := bind_eq_ok.mp h
      obtain ⟨hblank, -, hhas⟩ := Draft.of_put hkey hput
      have hrest := ih hrest
      rw [hhas] at hrest
      by_cases heq : name = key
      · subst heq
        simpa [hblank] using hrest
      · simpa [heq, Ne.symm heq] using hrest
    · simp only [if_neg hkey] at h
      have heq : key ≠ name := fun heq => hkey (heq ▸ hname)
      split at h
      · simpa [heq] using ih h
      · simp at h

/-- Fields that say what the settings say are read one after the other, and others are passed over. -/
theorem putMembers_ofNames {c : Settings} (levels : Nat) {members : List (String × Json.Document)}
    (hentries : ∀ member ∈ members, member.1 ∈ fields → member ∈ c.entries)
    (hnotes : ∀ member ∈ members, member.1 ∉ fields → member.2.wellFormed = true)
    (names : List String) (honce : ((members.map (·.1)).filter (· ∈ fields) ++ names).Nodup) :
    record.putMembers levels (members.map fun member => (some member.1, member.2)) (.ofNames c names)
      = .ok (.ofNames c (((members.map (·.1)).filter (· ∈ fields)).reverse ++ names)) := by
  induction members generalizing names with
  | nil => rfl
  | cons member members ih =>
    obtain ⟨name, document⟩ := member
    rw [List.forall_mem_cons] at hentries hnotes
    rw [List.map_cons, Record.putMembers, field?_eq]
    by_cases hname : name ∈ fields
    · simp only [List.map_cons, List.filter_cons, hname, decide_true, if_true, List.cons_append]
        at honce ⊢
      have hfresh : name ∉ names := fun hmem =>
        (List.nodup_cons.mp honce).1 (List.mem_append_right _ hmem)
      have hput : record.put name (Excerpt.mk levels document) (.ofNames c names)
          = .ok (.ofNames c (name :: names)) :=
        Draft.put_ofNames (hentries.1 hname) hfresh levels
      rw [hput, List.reverse_cons, List.append_assoc]
      exact ih hentries.2 hnotes.2 _ (List.perm_middle.nodup_iff.mpr honce)
    · simp only [List.map_cons, List.filter_cons, hname, decide_false, if_false, Bool.false_eq_true]
        at honce ⊢
      rw [if_pos (hnotes.1 hname)]
      exact ih hentries.2 hnotes.2 names honce

private theorem not_repeats_zip (name : String) (items : List Json.Document) :
    Json.repeats name (fields.zip items) = false := by
  refine Json.not_repeats ?_
  rw [List.zip_eq_zip_take_min, List.map_fst_zip (by simp)]
  exact (List.take_sublist _ _).nodup (by decide)

private theorem not_repeats_of_ofText {s : String} {c : Settings} (h : ofText s = .ok c)
    {name : String}
    (hname : name ∈ fields) : Json.repeats name (given (Json.Document.ofText s).1) = false := by
  obtain ⟨hread, -⟩ := ofText_eq_ok.mp h
  cases hdocument : (Json.Document.ofText s).1 with
  | object members closed =>
    rw [hdocument] at hread
    obtain ⟨d, hput, -⟩ := bind_eq_ok.mp hread
    have hcount := countP_add_le_of_putMembers hput hname
    have hgiven : (given (.object members closed)).countP (·.1 = name)
        = members.countP (·.1 = some name) := by
      rw [given, List.countP_filterMap]
      exact List.countP_congr fun member _ => by cases member.1 <;> simp
    rw [Json.repeats, decide_eq_false_iff_not, hgiven]
    omega
  | array items closed => exact not_repeats_zip name items
  | _ => rfl

private theorem fits_of_ofText {s : String} {c : Settings} (h : ofText s = .ok c) {name : String}
    (hname : name ∈ fields) {document : Json.Document}
    (hgiven : (name, document) ∈ given (Json.Document.ofText s).1) : Fits name document := by
  obtain ⟨hread, -⟩ := ofText_eq_ok.mp h
  cases hdocument : (Json.Document.ofText s).1 with
  | object members closed =>
    rw [hdocument] at hread hgiven
    obtain ⟨d, hput, -⟩ := bind_eq_ok.mp hread
    obtain ⟨⟨key, document'⟩, hmember, hkey⟩ := List.mem_filterMap.mp hgiven
    obtain ⟨_, rfl, heq⟩ := Option.map_eq_some_iff.mp hkey
    obtain ⟨rfl, rfl⟩ := Prod.mk.inj heq
    obtain ⟨d, d', hput⟩ :=
      Record.put_of_putMembers hput hmember ((field?_eq _).trans (if_pos hname))
    exact (Draft.of_put hname hput).2.1
  | array items closed =>
    rw [hdocument] at hread hgiven
    obtain ⟨d, hput, -⟩ := bind_eq_ok.mp hread
    obtain ⟨d, d', hput⟩ := Record.put_of_putItems hput hgiven
    exact (Draft.of_put hname hput).2.1
  | _ => simp [hdocument, given] at hgiven

/-- The text is an object with these members. -/
def IsObject (s : String) (members : List (String × Json.Document)) : Prop :=
  Json.Document.ofText s
    = (.object (members.map fun member => (some member.1, member.2)) true, true)

/-- The members are the fields of the settings, without some that are standard, and notes under other
names, in any order. -/
structure Tells (c : Settings) (kept notes members : List (String × Json.Document)) : Prop where
  fields : kept.Sublist c.entries
  standard : ∀ entry ∈ c.entries, entry ∉ kept → entry ∈ standard.entries
  unknown : ∀ note ∈ notes, note.1 ∉ Settings.fields
  wellFormed : ∀ note ∈ notes, note.2.wellFormed = true
  perm : members.Perm (kept ++ notes)

namespace Tells

variable {c : Settings} {kept notes members : List (String × Json.Document)}
  (h : c.Tells kept notes members)

include h

theorem known {entry : String × Json.Document} (hentry : entry ∈ kept) : entry.1 ∈ Settings.fields :=
  List.mem_map_of_mem (f := Prod.fst) (h.fields.subset hentry)

private theorem mem_entries {member : String × Json.Document} (hmember : member ∈ members)
    (hname : member.1 ∈ Settings.fields) : member ∈ c.entries := by
  rcases List.mem_append.mp (h.perm.mem_iff.mp hmember) with hkept | hnote
  · exact h.fields.subset hkept
  · exact absurd hname (h.unknown member hnote)

private theorem wellFormed_of_mem {member : String × Json.Document} (hmember : member ∈ members)
    (hname : member.1 ∉ Settings.fields) : member.2.wellFormed = true := by
  rcases List.mem_append.mp (h.perm.mem_iff.mp hmember) with hkept | hnote
  · exact absurd (h.known hkept) hname
  · exact h.wellFormed member hnote

private theorem names_perm :
    ((members.map (·.1)).filter (· ∈ Settings.fields)).Perm (kept.map (·.1)) := by
  have hkept : (kept.map (·.1)).filter (· ∈ Settings.fields) = kept.map (·.1) := by
    rw [List.filter_eq_self, List.forall_mem_map]
    exact fun entry hentry => decide_eq_true (h.known hentry)
  have hnotes : (notes.map (·.1)).filter (· ∈ Settings.fields) = [] := by
    rw [List.filter_eq_nil_iff, List.forall_mem_map]
    exact fun note hnote => by simpa using h.unknown note hnote
  refine ((h.perm.map (·.1)).filter _).trans (List.Perm.of_eq ?_)
  rw [List.map_append, List.filter_append, hkept, hnotes, List.append_nil]

theorem ofText_eq_ok {s : String} (hs : IsObject s members) : ofText s = .ok c := by
  have hfields : (c.entries.map Prod.fst).Nodup := (by decide : Settings.fields.Nodup)
  have hnodup : (kept.map (·.1)).Nodup := (h.fields.map Prod.fst).nodup hfields
  have hput := putMembers_ofNames (c := c) (nesting - 1)
    (fun _ => h.mem_entries) (fun _ => h.wellFormed_of_mem)
    [] (by rwa [List.append_nil, h.names_perm.nodup_iff])
  have hfinish := Draft.finish_ofNames (c := c)
    (((members.map (·.1)).filter (· ∈ Settings.fields)).reverse ++ [])
    fun entry hentry hname => h.standard entry hentry fun hmem => hname (by
      rw [List.append_nil, List.mem_reverse, h.names_perm.mem_iff]
      exact List.mem_map_of_mem hmem)
  have hread : record.ofExcerpt ⟨nesting, (Json.Document.ofText s).1⟩ = .ok c := by
    rw [hs]
    refine bind_eq_ok.mpr ⟨_, hput, ?_⟩
    rw [if_pos rfl, mapError_eq_ok]
    exact congrArg Except.ok hfinish
  exact Wire.ofText_eq_ok.mpr ⟨hread, by rw [hs]⟩

end Tells

private theorem isObject_toText {c : Settings} (hindent : c.indent < 2 ^ 64) :
    IsObject c.toText c.entries := by
  have hplain : c.toValue.Plain := by
    refine ⟨trivial, ⟨?_, ?_⟩, trivial, trivial, trivial, trivial⟩ <;> omega
  exact Json.Document.ofText_compactText hplain

private theorem tells_entries (c : Settings) : c.Tells c.entries [] c.entries where
  fields := List.Sublist.refl c.entries
  standard entry hentry hkept := absurd hentry hkept
  unknown := by simp
  wellFormed := by simp
  perm := by simp

/-- An object that has the fields of settings in any order, but for some that are standard, is read as
the settings, whatever stands under other names; so is what settings are written as. A text that gives
a field twice, or gives it something of another type, is refused. -/
theorem text_tells_settings :
    (∀ (c : Settings) (kept notes members : List (String × Json.Document)) (s : String),
      c.Tells kept notes members → IsObject s members → ofText s = .ok c)
    ∧ (∀ c : Settings, c.indent < 2 ^ 64 → ofText c.toText = .ok c)
    ∧ (∀ (s : String), ∀ name ∈ fields,
      Json.repeats name (given (Json.Document.ofText s).1) = true → ∃ flaw, ofText s = .error flaw)
    ∧ ∀ (s : String), ∀ name ∈ fields, ∀ document,
      (name, document) ∈ given (Json.Document.ofText s).1 → ¬ Fits name document →
        ∃ flaw, ofText s = .error flaw := by
  refine ⟨fun c kept notes members s htells hs => htells.ofText_eq_ok hs,
    fun c hindent => (tells_entries c).ofText_eq_ok (isObject_toText hindent), ?_, ?_⟩
  · intro s name hname hrepeats
    cases hread : ofText s with
    | error flaw => exact ⟨flaw, rfl⟩
    | ok c => simp [not_repeats_of_ofText hread hname] at hrepeats
  · intro s name hname document hgiven hfits
    cases hread : ofText s with
    | error flaw => exact ⟨flaw, rfl⟩
    | ok c => exact absurd (fits_of_ofText hread hname hgiven) hfits

/-- Two of the fields, the later one first, and a note between them. -/
def notedText : String :=
  "\x7b\"qualifyInputs\": true, \"note\": [1e999], \"className\": \"A\\u0042\"\x7d"

def notedMembers : List (String × Json.Document) :=
  [("qualifyInputs", .bool true), ("note", .array [.number none] true),
    ("className", .text (some "AB"))]

private theorem isObject_notedText : IsObject notedText notedMembers := by
  have htokens : Json.Token.ofText notedText = [.beginObject, .text "qualifyInputs", .colon,
      .bool true, .comma, .text "note", .colon, .beginArray, .number none, .endArray, .comma,
      .text "className", .colon, .text "AB", .endObject] := by
    decide +kernel
  rw [IsObject, Json.Document.ofText, htokens]
  rfl

/-- A field that is given twice, and one that is null. -/
def faultyText : String := "\x7b\"indent\":null,\"indent\":4\x7d"

private theorem isObject_faultyText :
    IsObject faultyText [("indent", .null), ("indent", .number (some (.integer 4)))] := by
  have htokens : Json.Token.ofText faultyText = [.beginObject, .text "indent", .colon, .null, .comma,
      .text "indent", .colon, .number (some (.integer 4)), .endObject] := by
    decide +kernel
  rw [IsObject, Json.Document.ofText, htokens]
  rfl

theorem notedText_tells_settings :
    (Tells ⟨"AB", 2, true, false, true⟩
        [("className", .text (some "AB")), ("qualifyInputs", .bool true)]
        [("note", .array [.number none] true)] notedMembers
      ∧ IsObject notedText notedMembers ∧ ofText notedText = .ok ⟨"AB", 2, true, false, true⟩)
    ∧ (4 < 2 ^ 64 ∧ ofText (toText ⟨"\"\\", 4, true, false, true⟩)
      = .ok ⟨"\"\\", 4, true, false, true⟩)
    ∧ (Json.repeats "indent" (given (Json.Document.ofText faultyText).1) = true
      ∧ ∃ flaw, ofText faultyText = .error flaw)
    ∧ ("indent", .null) ∈ given (Json.Document.ofText faultyText).1 ∧ ¬ Fits "indent" .null
      ∧ ∃ flaw, ofText faultyText = .error flaw := by
  obtain ⟨htells, hwritten, htwice, hmistyped⟩ := text_tells_settings
  have hnoted : Tells ⟨"AB", 2, true, false, true⟩
      [("className", .text (some "AB")), ("qualifyInputs", .bool true)]
      [("note", .array [.number none] true)] notedMembers :=
    { fields := by simp [entries]
      standard := by simp [entries, standard]
      unknown := by simp [fields]
      wellFormed := by simp [Json.Document.wellFormed, Json.Document.itemsWellFormed]
      perm := (List.perm_append_comm : ([_, _] ++ [_]).Perm ([_] ++ [_, _])) }
  have hrepeats : Json.repeats "indent" (given (Json.Document.ofText faultyText).1) = true := by
    rw [isObject_faultyText]
    rfl
  have hnull : ("indent", .null) ∈ given (Json.Document.ofText faultyText).1 := by
    rw [isObject_faultyText]
    exact List.mem_cons_self
  exact ⟨⟨hnoted, isObject_notedText, htells _ _ _ _ _ hnoted isObject_notedText⟩,
    ⟨by decide, hwritten _ (by decide)⟩, ⟨hrepeats, htwice _ "indent" (by decide) hrepeats⟩, hnull,
    not_false, hmistyped _ "indent" (by decide) .null hnull not_false⟩

end Advisor.Settings
