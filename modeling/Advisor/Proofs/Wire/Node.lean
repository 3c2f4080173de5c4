import Advisor.Proofs.Wire.Grammar

/-!
# Fields, tags and records as the grammar has them

A field that is read is one of the shape that the grammar asks for, whether it is required, may be
missing or has a usual value. A node is read as its tag says, if that is known, and a record field by
field.
-/

namespace Advisor

namespace Wire

variable {β : Type} {object : Object} {names : List String} {v : Json.Value}

theorem text_eq_ok {s : String} : Wire.text v = .ok s ↔ IsText s v := by
  cases v <;> simp [Wire.text, Source.found?, Found.ofValue, IsText]

theorem flag_eq_ok {b : Bool} : flag v = .ok b ↔ IsFlag b v := by
  cases v <;> simp [flag, Source.found?, Found.ofValue, IsFlag]

theorem double_eq_ok {x : Binary64} : double v = .ok x ↔ IsDouble x v := by
  cases v with
  | number n => cases n <;> simp [double, Source.found?, Found.ofValue, IsDouble, ofNumber]
  | _ => simp [double, Source.found?, Found.ofValue, IsDouble]

theorem tagOf_eq_ok {tag : String} :
    tagOf object = .ok tag ↔ Json.latest "type" object = some (.text tag) := by
  rw [tagOf]
  split <;> simp_all

section

variable {read : Json.Value → Except Flaw β} {part : Option β}

theorem reads_required {shape : Json.Value → Prop} {b : β} (h : ∀ v, read v = .ok b ↔ shape v) :
    Reads object names read (some b) ↔ Required object names shape := by
  simp only [Reads, Required, h]

theorem reads_defaulted {shape : Json.Value → Prop} {b usual : β}
    (h : ∀ v, read v = .ok b ↔ shape v) :
    (∃ part, Reads object names read part ∧ part.getD usual = b) ↔
      Defaulted object names shape (b = usual) := by
  rw [Option.exists, or_comm, Defaulted]
  refine or_congr ?_ (and_congr_right fun _ => eq_comm)
  simp only [Option.getD_some, exists_eq_right]
  exact reads_required h

private theorem nullable_eq_ok : nullable read v = .ok part ↔
    (v = .null ∧ part = none) ∨ (v ≠ .null ∧ ∃ b, read v = .ok b ∧ part = some b) := by
  cases v <;> simp [nullable, Source.found?, Found.ofValue, map_eq_ok, @eq_comm _ _ part]

/-- Null is no part, so a field that may be null is lacking or null if there is no part. -/
theorem reads_optional {shape : β → Json.Value → Prop} (hnull : ∀ b, read .null ≠ .ok b)
    (h : ∀ b ∈ part, ∀ v, read v = .ok b ↔ shape b v) :
    (∃ found, Reads object names (nullable read) found ∧ found.join = part) ↔
      Optional object names shape part := by
  rw [Option.exists]
  cases part with
  | none => simp [Reads, nullable_eq_ok, Optional]
  | some b =>
    have hread (v : Json.Value) : nullable read v = .ok (some b) ↔ shape b v := by
      rw [nullable_eq_ok, ← h b rfl]
      constructor
      · rintro (⟨-, hfalse⟩ | ⟨-, b', hread, hb⟩)
        · exact absurd hfalse (by simp)
        · rwa [Option.some.inj hb]
      · intro hread
        refine Or.inr ⟨?_, b, hread, rfl⟩
        rintro rfl
        exact hnull b hread
    simp [Reads, Optional, Required, hread]

end

section Tags

variable {τ α : Type} {name : τ → String} {all : List τ}

theorem find?_tag_eq_some (h : ∀ t, all.find? (fun u => name u = name t) = some t) {tag : String}
    {t : τ} : all.find? (fun u => name u = tag) = some t ↔ name t = tag := by
  constructor
  · intro hfind
    simpa using List.find?_some hfind
  · rintro rfl
    exact h t

theorem find?_tag_eq_none {tag : String} :
    all.find? (fun u => name u = tag) = none ↔ tag ∉ all.map name := by
  simp only [List.find?_eq_none, List.mem_map, decide_eq_true_eq, not_exists, not_and]

theorem isNode_congr {tag : String} {fields fields' : Object → Prop} {v : Json.Value}
    (h : ∀ o, fields o ↔ fields' o) : IsNode tag fields v ↔ IsNode tag fields' v := by
  simp only [IsNode, h]

variable {known? : String → Option τ} {tag? : α → Option τ} {other : String → α}
  {fields : Object → τ → Except Flaw α} {read : Json.Value → Except Flaw α}
  (hread : ∀ v a, read v = .ok a ↔ ∃ tag, IsNode tag (fun o =>
    (∃ t, known? tag = some t ∧ fields o t = .ok a) ∨ known? tag = none ∧ other tag = a) v)
  (htag : ∀ o t a, fields o t = .ok a → tag? a = some t) (hother : ∀ kind, tag? (other kind) = none)

include hread htag hother

/-- What has a tag of its own is read from nodes with this tag only. -/
theorem read_known_iff (hknown : ∀ tag t, known? tag = some t ↔ name t = tag) {v : Json.Value} {a : α}
    {t : τ} (ha : tag? a = some t) :
    read v = .ok a ↔ IsNode (name t) (fun o => fields o t = .ok a) v := by
  rw [hread]
  constructor
  · rintro ⟨tag, o, rfl, htype, ⟨u, hu, hfields⟩ | ⟨-, rfl⟩⟩
    · obtain rfl : u = t := Option.some.inj ((htag o u a hfields).symm.trans ha)
      rw [(hknown tag u).mp hu]
      exact ⟨o, rfl, htype, hfields⟩
    · rw [hother] at ha
      exact absurd ha (by simp)
  · rintro ⟨o, rfl, htype, hfields⟩
    exact ⟨name t, o, rfl, htype, Or.inl ⟨t, (hknown _ t).mpr rfl, hfields⟩⟩

theorem read_other_iff (hinjective : ∀ kind kind', other kind = other kind' → kind = kind')
    {v : Json.Value} {kind : String} :
    read v = .ok (other kind) ↔ IsNode kind (fun _ => known? kind = none) v := by
  rw [hread]
  constructor
  · rintro ⟨tag, o, rfl, htype, ⟨u, -, hfields⟩ | ⟨hnone, heq⟩⟩
    · have hnone := (htag o u _ hfields).symm.trans (hother kind)
      exact absurd hnone (by simp)
    · obtain rfl := hinjective _ _ heq
      exact ⟨o, rfl, htype, hnone⟩
  · rintro ⟨o, rfl, htype, hnone⟩
    exact ⟨kind, o, rfl, htype, Or.inr ⟨hnone, rfl⟩⟩

end Tags

section Records

variable {δ α β : Type} {record : Record δ α} {o : Object} {p : δ → Prop}

theorem ofMembers_eq_ok {a : α} : record.ofMembers o = .ok a ↔
    ∃ d, record.putFields o record.sorted record.blank = .ok d ∧ record.finish d = .ok a := by
  simp [Record.ofMembers]

theorem putFields_nil {d : δ} : (∃ e, record.putFields o [] d = .ok e ∧ p e) ↔ p d := by
  simp [Record.putFields]

theorem putFields_cons {field : String} {fields : List String} {d : δ}
    {r : Json.Value → Except Flaw β} {f : Option β → δ}
    (hput : ∀ v, record.put field v d = once field none (r v) >>= fun part => pure (f part))
    (hlack : f none = d) :
    (∃ e, record.putFields o (field :: fields) d = .ok e ∧ p e) ↔
      ∃ part, Reads o [field] r part ∧ ∃ e, record.putFields o fields (f part) = .ok e ∧ p e := by
  rw [Record.putFields, Option.exists, hlack]
  cases h : Json.latest field o with
  | none => simp [Reads, h]
  | some v =>
    simp only [Reads, h, hput, gives_singleton, lacks_singleton, bind_eq_ok, once_eq_ok, pure_eq_ok]
    grind

end Records

end Wire

end Advisor
