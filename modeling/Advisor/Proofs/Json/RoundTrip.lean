import Advisor.Proofs.Json.Depth
import Advisor.Proofs.Json.Layout
import Advisor.Proofs.Wire.Direct

/-!
# Written values are read back

The tokens of a value make the tree of the value, and that tree has the value it was made from. So a
text in which a value has been written, on one line or over several, has exactly that value, if its
numbers are integers of 64 bits and it nests no deeper than texts may.
-/

namespace Advisor.Json

namespace Document

mutual

/-- The tree of a value. -/
def ofValue : Value → Document
  | .null => .null
  | .bool b => .bool b
  | .number n => .number (some n)
  | .text s => .text (some s)
  | .array items => .array (ofItems items) true
  | .object members => .object (ofMembers members) true

def ofItems : List Value → List Document
  | [] => []
  | item :: rest => ofValue item :: ofItems rest

def ofMembers : List (String × Value) → List (Option String × Document)
  | [] => []
  | (name, value) :: rest => (some name, ofValue value) :: ofMembers rest

end

private theorem exists_tokens_cons (v : Value) :
    ∃ token more, v.tokens = token :: more ∧ token ≠ .endArray := by
  unfold Value.tokens
  split <;> exact ⟨_, _, rfl, by simp⟩

private theorem value_beginArray {n : Nat} {token : Token} (h : token ≠ .endArray)
    (rest : List Token) :
    value (n + 1) (.beginArray :: token :: rest)
      = (.array (items n (token :: rest)).1 (items n (token :: rest)).2.1,
        (items n (token :: rest)).2.2) := by
  rw [value]
  simp [h]

private theorem value_beginObject (n : Nat) (key : Option String) (rest : List Token) :
    value (n + 1) (.beginObject :: .text key :: rest)
      = (.object (members n (.text key :: rest)).1 (members n (.text key :: rest)).2.1,
        (members n (.text key :: rest)).2.2) := by
  rw [value]
  simp

mutual

/-- By induction on the steps that may be taken. -/
theorem value_tokens (rest : List Token) : ∀ {n : Nat} {v : Value}, v.tokens.length ≤ n →
    value n (v.tokens ++ rest) = (ofValue v, rest)
  | 0, v, h => by
    obtain ⟨token, more, heq, -⟩ := exists_tokens_cons v
    simp [heq] at h
  | _ + 1, .null, _ | _ + 1, .bool _, _ | _ + 1, .number _, _ | _ + 1, .text _, _
  | _ + 1, .array [], _ | _ + 1, .object [], _ => rfl
  | n + 1, .array (item :: items), h => by
    have hitems := items_tokens rest (Nat.le_of_succ_le_succ h)
    obtain ⟨token, more, heq, htoken⟩ := exists_tokens_cons item
    rw [Value.tokens, List.cons_append, List.append_assoc]
    rw [heq] at hitems ⊢
    rw [List.cons_append, value_beginArray htoken, ← List.cons_append, hitems]
    rfl
  | n + 1, .object ((name, v) :: tail), h => by
    have hmembers := members_tokens rest (Nat.le_of_succ_le_succ h)
    rw [Value.tokens, List.cons_append, List.cons_append, List.cons_append, List.append_assoc,
      value_beginObject, hmembers]
    rfl

private theorem items_tokens (rest : List Token) : ∀ {n : Nat} {item : Value} {tail : List Value},
    (item.tokens ++ Value.tokensOfItems tail).length ≤ n →
    items n (item.tokens ++ (Value.tokensOfItems tail ++ rest))
      = (ofValue item :: ofItems tail, true, rest)
  | 0, item, _, h => by
    obtain ⟨token, more, heq, -⟩ := exists_tokens_cons item
    simp [heq] at h
  | n + 1, item, [], h => by
    rw [items, value_tokens _ (by simp [Value.tokensOfItems] at h; omega)]
    rfl
  | n + 1, item, next :: tail, h => by
    rw [Value.tokensOfItems, List.length_append, List.length_cons] at h
    have htail : items n (next.tokens ++ (Value.tokensOfItems tail ++ rest))
        = (ofValue next :: ofItems tail, true, rest) := items_tokens rest
      (by rw [List.length_append] at h ⊢; omega)
    rw [items, value_tokens _ (by omega), Value.tokensOfItems, List.cons_append, List.append_assoc]
    simp only [htail]
    rfl

private theorem members_tokens (rest : List Token) : ∀ {n : Nat} {name : String} {v : Value}
    {tail : List (String × Value)},
    (.text (some name) :: .colon :: (v.tokens ++ Value.tokensOfMembers tail)).length ≤ n →
    members n (.text (some name) :: .colon :: (v.tokens ++ (Value.tokensOfMembers tail ++ rest)))
      = ((some name, ofValue v) :: ofMembers tail, true, rest)
  | 0, _, _, _, h => by simp at h
  | n + 1, name, v, [], h => by
    simp only [List.length_cons, List.length_append] at h
    rw [members, value_tokens _ (by omega)]
    rfl
  | n + 1, name, v, (other, next) :: tail, h => by
    simp only [Value.tokensOfMembers, List.length_cons, List.length_append] at h
    have htail : members n (.text (some other) :: .colon ::
          (next.tokens ++ (Value.tokensOfMembers tail ++ rest)))
        = ((some other, ofValue next) :: ofMembers tail, true, rest) := members_tokens rest
      (by simp only [List.length_cons, List.length_append]; omega)
    rw [members, value_tokens _ (by omega), Value.tokensOfMembers]
    simp only [List.cons_append, List.append_assoc, htail]
    rfl

end

mutual

private theorem value?_ofValue : ∀ {levels : Nat} {v : Value}, v.depth ≤ levels →
    (ofValue v).value? levels = some v
  | _, .null, _ | _, .bool _, _ | _, .number _, _ | _, .text _, _ => by
    simp [ofValue, value?]
  | 0, .array _, h | 0, .object _, h => absurd h (Nat.not_succ_le_zero _)
  | levels + 1, .array items, h => by
    rw [ofValue, value?, itemValues?_ofItems (Nat.le_of_succ_le_succ h), Option.map_some]
  | levels + 1, .object members, h => by
    rw [ofValue, value?, memberValues?_ofMembers (Nat.le_of_succ_le_succ h), Option.map_some]

private theorem itemValues?_ofItems : ∀ {levels : Nat} {items : List Value},
    Value.depthAll items ≤ levels → itemValues? levels (ofItems items) = some items
  | _, [], _ => rfl
  | _, item :: rest, h => by
    obtain ⟨hitem, hrest⟩ := Nat.max_le.mp h
    rw [ofItems, itemValues?, value?_ofValue hitem, itemValues?_ofItems hrest]
    rfl

private theorem memberValues?_ofMembers : ∀ {levels : Nat} {members : List (String × Value)},
    Value.depthMembers members ≤ levels → memberValues? levels (ofMembers members) = some members
  | _, [], _ => rfl
  | _, (name, v) :: rest, h => by
    obtain ⟨hvalue, hrest⟩ := Nat.max_le.mp h
    rw [ofMembers, memberValues?, value?_ofValue hvalue, memberValues?_ofMembers hrest]
    rfl

end

variable {v : Value}

private theorem ofText_write (l : Layout) (level : Nat) (hplain : v.Plain) :
    ofText (String.ofList (l.write level v)) = (ofValue v, true) := by
  have hscans : Scans (l.write level v ++ []) v.tokens [] := l.scans_write level hplain trivial
  rw [List.append_nil] at hscans
  have htokens : Token.ofText (String.ofList (l.write level v)) = v.tokens :=
    Scans.ofText_eq (by rwa [String.toList_ofList])
  have hvalue : value (2 * v.tokens.length + 1) (v.tokens ++ []) = (ofValue v, []) :=
    value_tokens [] (by omega)
  rw [List.append_nil] at hvalue
  rw [ofText, htokens, ofTokens, hvalue]
  rfl

theorem ofText_compactText (hplain : v.Plain) : ofText v.compactText = (ofValue v, true) := by
  rw [Value.compactText, ← Layout.write_compact 0, ofText_write _ _ hplain]

theorem ofText_prettyText (hplain : v.Plain) : ofText v.prettyText = (ofValue v, true) := by
  rw [Value.prettyText, ← Layout.write_pretty, ofText_write _ _ hplain]

end Document

end Advisor.Json

namespace Advisor.Wire

variable {s : String} {v : Json.Value}

/-- A text whose tree is that of a value has the value. -/
theorem ofText_value (h : Json.Document.ofText s = (.ofValue v, true)) (hdepth : v.depth ≤ nesting) :
    ofText Source.value s = .ok v := by
  have hvalue := Json.Document.value?_ofValue hdepth
  exact ofText_eq_ok.mpr ⟨value_eq_ok.mpr (by rw [h]; exact hvalue), by rw [h]⟩

end Advisor.Wire
