import Advisor.Proofs.Files.Saving
import Advisor.Proofs.Json.RoundTrip

/-!
# What the document of descriptors says

Descriptors hold any texts. Their document has a value, which lists them in order, each with its four
texts as they are; so from the file that holds the document the descriptors can be told.
-/

namespace Advisor.Descriptor

open Files Wire

private theorem plainItems_map_toValue (ds : List Descriptor) :
    Json.Value.PlainItems (ds.map toValue) := by
  induction ds with
  | nil => trivial
  | cons d ds ih => exact ⟨⟨trivial, trivial, trivial, trivial, trivial⟩, ih⟩

private theorem depthAll_map_toValue_le (ds : List Descriptor) :
    Json.Value.depthAll (ds.map toValue) ≤ 1 := by
  induction ds with
  | nil => exact Nat.zero_le 1
  | cons d ds ih => exact Nat.max_le.mpr ⟨Nat.le_refl 1, ih⟩

private theorem ofText_document (ds : List Descriptor) :
    ofText Source.value (document ds) = .ok (.array (ds.map toValue)) :=
  ofText_value (Json.Document.ofText_prettyText (plainItems_map_toValue ds))
    (Nat.le_trans (Nat.succ_le_succ (depthAll_map_toValue_le ds)) (by decide))

private theorem toValue_injective : Function.Injective toValue := by
  rintro ⟨name, type, initial, description⟩ ⟨name', type', initial', description'⟩ h
  simpa [toValue] using h

private theorem document_injective : Function.Injective document := by
  intro ds ds' h
  have hvalue := ofText_document ds
  rw [h, ofText_document ds'] at hvalue
  exact List.map_injective_iff.mpr toValue_injective
    (Json.Value.array.inj (Except.ok.inj hvalue)).symm

/-- The document of any descriptors lists them in order with their texts as they are, saving writes
it as it stands, and no two lists of descriptors have the same file. -/
theorem saved_document_faithful :
    (∀ ds : List Descriptor, ofText Source.value (document ds) = .ok (.array (ds.map fun d =>
      .object [("name", .text d.name), ("type", .text d.type),
        ("defaultValue", .text d.defaultValue), ("description", .text d.description)])))
    ∧ (∀ path ds session, Attempt path (document ds) session
      (session.perform (saveAll path ds)).1 (session.perform (saveAll path ds)).2)
    ∧ Function.Injective fun ds => (document ds).toUTF8 := by
  refine ⟨ofText_document, fun path ds session => attempt_saveText path (document ds) session, ?_⟩
  intro ds ds' h
  exact document_injective (String.toByteArray_inj.mp h)

/-- Quotes, a backslash, a control character and letters beyond the first 128. -/
def quotedDescriptors : List Descriptor :=
  [⟨"pfad", "string", "\"c:\\\\ö\"", "\x01 π"⟩, ⟨"lots", "double", "0.0", "double parameter"⟩]

/-- The file goes to a directory that is missing. -/
theorem quotedDescriptors_saved :
    let saved := Session.blank.perform (saveAll "out/inputs.json" quotedDescriptors)
    Store.blank.IsTree ∧ Store.blank.Admits "out/inputs.json" ∧ saved.1 = .ok () ∧
      saved.2.store.read "out/inputs.json" = .ok (document quotedDescriptors).toUTF8 ∧
      document quotedDescriptors = "[
  \x7b
    \"name\": \"pfad\",
    \"type\": \"string\",
    \"defaultValue\": \"\\\"c:\\\\\\\\ö\\\"\",
    \"description\": \"\\u0001 π\"
  \x7d,
  \x7b
    \"name\": \"lots\",
    \"type\": \"double\",
    \"defaultValue\": \"0.0\",
    \"description\": \"double parameter\"
  \x7d
]" ∧
      ofText Source.value (document quotedDescriptors) = .ok (.array
        [.object [("name", .text "pfad"), ("type", .text "string"),
            ("defaultValue", .text "\"c:\\\\ö\""), ("description", .text "\x01 π")],
          .object [("name", .text "lots"), ("type", .text "double"),
            ("defaultValue", .text "0.0"), ("description", .text "double parameter")]]) := by
  obtain ⟨hparse, hattempt, -⟩ := saved_document_faithful
  have hsaved : (Session.blank.perform (saveAll "out/inputs.json" quotedDescriptors)).1 = .ok () := by
    rw [saveAll]
    generalize document quotedDescriptors = text
    rfl
  have hattempted := hattempt "out/inputs.json" quotedDescriptors Session.blank
  exact ⟨Store.isTree_blank, (hattempted.answered Store.isTree_blank).mp hsaved, hsaved,
    hattempted.written hsaved, by decide +kernel, hparse quotedDescriptors⟩

example : document [] = "[]" := by decide

end Advisor.Descriptor
