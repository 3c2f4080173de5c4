import Advisor.Proofs.Json.Scanning

/-!
# What written values are scanned as

A value is written on one line or over several, which differ in their blanks alone. Either way its
text is scanned as the tokens of the value, as long as its numbers are integers of 64 bits.
-/

namespace Advisor.Json

/-- From the text these tokens are scanned, and the rest is left, in as many steps as the texts have
characters. -/
def Scans (s : List Char) (tokens : List Token) (rest : List Char) : Prop :=
  ∀ n, s.length ≤ n → ∃ m, rest.length ≤ m ∧ Token.scan n s = tokens ++ Token.scan m rest

namespace Scans

variable {s t rest : List Char} {token : Token} {tokens more : List Token}

theorem trans (h : Scans s tokens t) (h' : Scans t more rest) : Scans s (tokens ++ more) rest := by
  intro n hn
  obtain ⟨m, hm, heq⟩ := h n hn
  obtain ⟨k, hk, heq'⟩ := h' m hm
  exact ⟨k, hk, by rw [heq, heq', List.append_assoc]⟩

theorem cons (h : Scans s [token] t) (h' : Scans t more rest) : Scans s (token :: more) rest :=
  h.trans h'

theorem ofText_eq {text : String} (h : Scans text.toList tokens []) :
    Token.ofText text = tokens := by
  obtain ⟨m, -, heq⟩ := h text.length (Nat.le_of_eq String.length_toList)
  rw [Token.ofText, heq]
  cases m <;> simp [Token.scan]

theorem next {c : Char} (hblank : Token.isBlank c = false)
    (h : Token.next c s = some (token, rest)) (hlength : rest.length ≤ s.length) :
    Scans (c :: s) [token] rest := by
  intro n hn
  cases n with
  | zero => simp at hn
  | succ n =>
    rw [List.length_cons] at hn
    exact ⟨n, by omega, by simp [Token.scan, hblank, h]⟩

private theorem punctuation {c : Char} (hblank : Token.isBlank c = false)
    (h : Token.punctuation? c = some token) (rest : List Char) : Scans (c :: rest) [token] rest :=
  next hblank (by simp [Token.next, h]) (Nat.le_refl _)

theorem blanks (hblank : ∀ c ∈ s, Token.isBlank c = true) (h : Scans t tokens rest) :
    Scans (s ++ t) tokens rest := by
  induction s with
  | nil => exact h
  | cons c s ih =>
    rw [List.forall_mem_cons] at hblank
    intro n hn
    cases n with
    | zero => simp at hn
    | succ n =>
      obtain ⟨m, hm, heq⟩ := ih hblank.2 n (by simpa using hn)
      exact ⟨m, hm, by simpa [Token.scan, hblank.1] using heq⟩

theorem quoted (s : String) (rest : List Char) :
    Scans (Quoted.ofString s ++ rest) [.text (some s)] rest := by
  have hscan := Quoted.scan_flatMap_escape s.toList rest
  have hquote : Token.punctuation? '"' = none := rfl
  simp only [Quoted.ofString, Quoted.write, List.cons_append, List.append_assoc, List.nil_append]
  refine next rfl ?_ (by simp; omega)
  simp [Token.next, hquote, hscan, Quoted.text?_map_piece]

/-- The blanks, and what tokens other than numbers begin with. -/
def starts : List Char :=
  [' ', '\t', '\n', '\r', '[', ']', '\x7b', '\x7d', ',', ':', '"', 'n', 't', 'f']

private theorem ne_of_mem_starts {c d : Char} (hc : c = '-' ∨ c.isDigit = true) (hd : d ∈ starts) :
    c ≠ d := by
  have hall : starts.all (fun d => d != '-' && !d.isDigit) = true := by rfl
  have hneither := List.all_eq_true.mp hall d hd
  simp only [Bool.and_eq_true, bne_iff_ne, Bool.not_eq_true'] at hneither
  rintro rfl
  simp [hneither] at hc

theorem number {c : Char} (hc : c = '-' ∨ c.isDigit = true) {numeral : Numeral}
    (h : Numeral.scan (c :: s) = some (numeral, rest)) (hlength : rest.length ≤ s.length) :
    Scans (c :: s) [.number numeral.number?] rest := by
  have hother : ∀ d ∈ starts, c ≠ d := fun d => ne_of_mem_starts hc
  simp only [starts, List.forall_mem_cons] at hother
  refine next ?_ ?_ hlength
  · simp [Token.isBlank, hother]
  · simp [Token.next, Token.punctuation?, hother, h]

theorem integer {i : Int} (hlow : -2 ^ 63 ≤ i) (hhigh : i < 2 ^ 64) (hrest : Numeral.Ends rest) :
    Scans (integerNotation i ++ rest) [.number (some (.integer i))] rest := by
  have hscan := Numeral.scan_integerNotation i hrest
  obtain ⟨c, more, heq, hc⟩ := Numeral.exists_integerNotation_cons i
  rw [heq, List.cons_append] at hscan ⊢
  rw [← Numeral.number?_integer hlow hhigh]
  exact number hc hscan (by simp)

end Scans

mutual

/-- The numbers in the value are integers of 64 bits. -/
def Value.Plain : Value → Prop
  | .number (.integer i) => -2 ^ 63 ≤ i ∧ i < 2 ^ 64
  | .number (.real _) => False
  | .array items => PlainItems items
  | .object members => PlainMembers members
  | _ => True

def Value.PlainItems : List Value → Prop
  | [] => True
  | item :: rest => item.Plain ∧ PlainItems rest

def Value.PlainMembers : List (String × Value) → Prop
  | [] => True
  | (_, value) :: rest => value.Plain ∧ PlainMembers rest

end

mutual

def Value.tokens : Value → List Token
  | .null => [.null]
  | .bool b => [.bool b]
  | .number n => [.number (some n)]
  | .text s => [.text (some s)]
  | .array [] => [.beginArray, .endArray]
  | .array (item :: rest) => .beginArray :: (item.tokens ++ tokensOfItems rest)
  | .object [] => [.beginObject, .endObject]
  | .object ((name, value) :: rest) =>
    .beginObject :: .text (some name) :: .colon :: (value.tokens ++ tokensOfMembers rest)

/-- The tokens of the items behind the first, and of the closing bracket. -/
def Value.tokensOfItems : List Value → List Token
  | [] => [.endArray]
  | item :: rest => .comma :: (item.tokens ++ tokensOfItems rest)

/-- The tokens of the members behind the first, and of the closing brace. -/
def Value.tokensOfMembers : List (String × Value) → List Token
  | [] => [.endObject]
  | (name, value) :: rest =>
    .comma :: .text (some name) :: .colon :: (value.tokens ++ tokensOfMembers rest)

end

/-- How a value is spread over lines. -/
structure Layout where
  /-- What stands in front of an item or a member, or a closing bracket, at the level. -/
  line : Nat → List Char
  /-- What stands between a colon and the value. -/
  gap : List Char
  isBlank_of_mem_line : ∀ level, ∀ c ∈ line level, Token.isBlank c = true
  isBlank_of_mem_gap : ∀ c ∈ gap, Token.isBlank c = true

namespace Layout

mutual

/-- The text of the value, the first line of which begins at the level. -/
def write (l : Layout) (level : Nat) : Value → List Char
  | .array [] => ['[', ']']
  | .array (item :: rest) =>
    '[' :: (l.line (level + 1) ++ (l.write (level + 1) item ++ l.writeItems level rest))
  | .object [] => ['\x7b', '\x7d']
  | .object ((name, value) :: rest) =>
    '\x7b' :: (l.line (level + 1) ++ (Quoted.ofString name ++ ':' :: (l.gap ++
      (l.write (level + 1) value ++ l.writeMembers level rest))))
  | value => value.scalar

def writeItems (l : Layout) (level : Nat) : List Value → List Char
  | [] => l.line level ++ [']']
  | item :: rest =>
    ',' :: (l.line (level + 1) ++ (l.write (level + 1) item ++ l.writeItems level rest))

def writeMembers (l : Layout) (level : Nat) : List (String × Value) → List Char
  | [] => l.line level ++ ['\x7d']
  | (name, value) :: rest =>
    ',' :: (l.line (level + 1) ++ (Quoted.ofString name ++ ':' :: (l.gap ++
      (l.write (level + 1) value ++ l.writeMembers level rest))))

end

/-- Everything on one line. -/
def compact : Layout := ⟨fun _ => [], [], by simp, by simp⟩

/-- Each item and each member on a line of its own. -/
def pretty : Layout :=
  ⟨Value.newLine, [' '], by simp +contextual [Value.newLine, Token.isBlank], by simp [Token.isBlank]⟩

mutual

theorem write_compact (level : Nat) : ∀ v, compact.write level v = v.compact
  | .null | .bool _ | .number _ | .text _ | .array [] | .object [] => by
    simp [write, Value.compact]
  | .array (item :: rest) => by
    rw [write, write_compact, writeItems_compact, Value.compact]
    rfl
  | .object ((name, value) :: rest) => by
    rw [write, write_compact, writeMembers_compact, Value.compact]
    rfl

private theorem writeItems_compact (level : Nat) :
    ∀ items, compact.writeItems level items = Value.compactItems items
  | [] => by
    rw [writeItems, Value.compactItems]
    rfl
  | item :: rest => by
    rw [writeItems, write_compact, writeItems_compact, Value.compactItems]
    rfl

private theorem writeMembers_compact (level : Nat) :
    ∀ members, compact.writeMembers level members = Value.compactMembers members
  | [] => by
    rw [writeMembers, Value.compactMembers]
    rfl
  | (name, value) :: rest => by
    rw [writeMembers, write_compact, writeMembers_compact, Value.compactMembers]
    rfl

end

mutual

theorem write_pretty (level : Nat) : ∀ v, pretty.write level v = v.pretty level
  | .null | .bool _ | .number _ | .text _ | .array [] | .object [] => by
    simp [write, Value.pretty]
  | .array (item :: rest) => by
    rw [write, write_pretty, writeItems_pretty, Value.pretty]
    rfl
  | .object ((name, value) :: rest) => by
    rw [write, write_pretty, writeMembers_pretty, Value.pretty]
    rfl

private theorem writeItems_pretty (level : Nat) :
    ∀ items, pretty.writeItems level items = Value.prettyItems level items
  | [] => by
    rw [writeItems, Value.prettyItems]
    rfl
  | item :: rest => by
    rw [writeItems, write_pretty, writeItems_pretty, Value.prettyItems]
    rfl

private theorem writeMembers_pretty (level : Nat) :
    ∀ members, pretty.writeMembers level members = Value.prettyMembers level members
  | [] => by
    rw [writeMembers, Value.prettyMembers]
    rfl
  | (name, value) :: rest => by
    rw [writeMembers, write_pretty, writeMembers_pretty, Value.prettyMembers]
    rfl

end

private theorem ends_of_blanks {blanks rest : List Char} (h : ∀ c ∈ blanks, Token.isBlank c = true)
    (hrest : Numeral.Ends rest) : Numeral.Ends (blanks ++ rest) := by
  cases blanks with
  | nil => exact hrest
  | cons c blanks =>
    have hc := h c List.mem_cons_self
    simp only [Token.isBlank, Bool.or_eq_true, decide_eq_true_eq] at hc
    rcases hc with ((rfl | rfl) | rfl) | rfl <;> exact ⟨rfl, by decide⟩

private theorem ends_writeItems (l : Layout) (level : Nat) (items : List Value) (rest : List Char) :
    Numeral.Ends (l.writeItems level items ++ rest) := by
  cases items with
  | nil =>
    rw [writeItems, List.append_assoc]
    exact ends_of_blanks (l.isBlank_of_mem_line level) ⟨rfl, by decide⟩
  | cons item items =>
    rw [writeItems]
    exact ⟨rfl, by decide⟩

private theorem ends_writeMembers (l : Layout) (level : Nat) (members : List (String × Value))
    (rest : List Char) : Numeral.Ends (l.writeMembers level members ++ rest) := by
  cases members with
  | nil =>
    rw [writeMembers, List.append_assoc]
    exact ends_of_blanks (l.isBlank_of_mem_line level) ⟨rfl, by decide⟩
  | cons member members =>
    rw [writeMembers]
    exact ⟨rfl, by decide⟩

variable (l : Layout)

private theorem scans_line {level : Nat} {s rest : List Char} {tokens : List Token}
    (h : Scans s tokens rest) : Scans (l.line level ++ s) tokens rest :=
  .blanks (l.isBlank_of_mem_line level) h

theorem scans_member (name : String) {s rest : List Char} {tokens : List Token}
    (h : Scans s tokens rest) : Scans (Quoted.ofString name ++ ':' :: (l.gap ++ s))
      (.text (some name) :: .colon :: tokens) rest :=
  (Scans.quoted name _).cons ((Scans.punctuation rfl rfl _).cons (.blanks l.isBlank_of_mem_gap h))

mutual

/-- A value is scanned as its tokens, in front of anything that does not go on with a number. -/
theorem scans_write {rest : List Char} : ∀ (level : Nat) {v : Value}, v.Plain →
    Numeral.Ends rest → Scans (l.write level v ++ rest) v.tokens rest
  | _, .null, _, _ | _, .bool true, _, _ | _, .bool false, _, _ =>
    .next rfl rfl (by simp; omega)
  | _, .number (.integer i), hplain, hrest => .integer hplain.1 hplain.2 hrest
  | _, .text s, _, _ => .quoted s rest
  | _, .array [], _, _ | _, .object [], _, _ =>
    (Scans.punctuation rfl rfl _).cons (.punctuation rfl rfl rest)
  | level, .array (item :: items), hplain, _ => by
    have hitem := scans_write (level + 1) hplain.1 (l.ends_writeItems level items rest)
    have hitems := hitem.trans (scans_writeItems level hplain.2)
    rw [write]
    simp only [List.cons_append, List.append_assoc]
    exact (Scans.punctuation rfl rfl _).cons (l.scans_line hitems)
  | level, .object ((name, value) :: members), hplain, _ => by
    have hvalue := scans_write (level + 1) hplain.1 (l.ends_writeMembers level members rest)
    have hmembers := hvalue.trans (scans_writeMembers level hplain.2)
    rw [write]
    simp only [List.cons_append, List.append_assoc]
    exact (Scans.punctuation rfl rfl _).cons (l.scans_line (l.scans_member name hmembers))

private theorem scans_writeItems {rest : List Char} : ∀ (level : Nat) {items : List Value},
    Value.PlainItems items →
    Scans (l.writeItems level items ++ rest) (Value.tokensOfItems items) rest
  | level, [], _ => by
    rw [writeItems, List.append_assoc]
    exact l.scans_line (.punctuation rfl rfl rest)
  | level, item :: items, hplain => by
    have hitem := scans_write (level + 1) hplain.1 (l.ends_writeItems level items rest)
    have hitems := hitem.trans (scans_writeItems level hplain.2)
    rw [writeItems]
    simp only [List.cons_append, List.append_assoc]
    exact (Scans.punctuation rfl rfl _).cons (l.scans_line hitems)

private theorem scans_writeMembers {rest : List Char} :
    ∀ (level : Nat) {members : List (String × Value)},
    Value.PlainMembers members →
    Scans (l.writeMembers level members ++ rest) (Value.tokensOfMembers members) rest
  | level, [], _ => by
    rw [writeMembers, List.append_assoc]
    exact l.scans_line (.punctuation rfl rfl rest)
  | level, (name, value) :: members, hplain => by
    have hvalue := scans_write (level + 1) hplain.1 (l.ends_writeMembers level members rest)
    have hmembers := hvalue.trans (scans_writeMembers level hplain.2)
    rw [writeMembers]
    simp only [List.cons_append, List.append_assoc]
    exact (Scans.punctuation rfl rfl _).cons (l.scans_line (l.scans_member name hmembers))

end

end Layout

end Advisor.Json
