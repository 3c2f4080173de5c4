import Advisor.Json.Token

/-!
# Documents

A document is the tree of a text as it is written: members in order and with repetitions, and a mark
where the text stops being JSON. Everything before that mark is there to be read, so a reader that
goes through a document in order meets the faults of the text and its own objections in the order in
which they stand. Taking a document whole, as a value, fails wherever it is damaged.
-/

namespace Advisor.Json

inductive Document where
  | null
  | bool (value : Bool)
  /-- A number, unless it is too large. -/
  | number (value : Option Number)
  /-- A string, unless it has an unpaired surrogate. -/
  | text (value : Option String)
  /-- The items that were found, and whether the closing bracket was. -/
  | array (items : List Document) (closed : Bool)
  /-- The members that were found, and whether the closing brace was. -/
  | object (members : List (Option String × Document)) (closed : Bool)
  /-- No value where one must be. -/
  | broken
deriving Repr, Inhabited

namespace Document

mutual

/-- The value at the front of the tokens, and the tokens behind it. -/
def value : Nat → List Token → Document × List Token
  | 0, _ => (.broken, [])
  | _ + 1, .null :: rest => (.null, rest)
  | _ + 1, .bool b :: rest => (.bool b, rest)
  | _ + 1, .number n :: rest => (.number n, rest)
  | _ + 1, .text s :: rest => (.text s, rest)
  | _ + 1, .beginArray :: .endArray :: rest => (.array [] true, rest)
  | n + 1, .beginArray :: rest =>
    let (found, closed, rest) := items n rest
    (.array found closed, rest)
  | _ + 1, .beginObject :: .endObject :: rest => (.object [] true, rest)
  | n + 1, .beginObject :: rest =>
    let (found, closed, rest) := members n rest
    (.object found closed, rest)
  | _ + 1, _ => (.broken, [])

/-- One item or more up to the closing bracket, whether that was found, and the tokens behind. -/
def items : Nat → List Token → List Document × Bool × List Token
  | 0, _ => ([], false, [])
  | n + 1, tokens =>
    match value n tokens with
    | (item, .comma :: rest) =>
      let (found, closed, rest) := items n rest
      (item :: found, closed, rest)
    | (item, .endArray :: rest) => ([item], true, rest)
    | (item, _) => ([item], false, [])

/-- One member or more up to the closing brace, whether that was found, and the tokens behind. -/
def members : Nat → List Token → List (Option String × Document) × Bool × List Token
  | 0, _ => ([], false, [])
  | n + 1, .text key :: .colon :: tokens =>
    match value n tokens with
    | (member, .comma :: rest) =>
      let (found, closed, rest) := members n rest
      ((key, member) :: found, closed, rest)
    | (member, .endObject :: rest) => ([(key, member)], true, rest)
    | (member, _) => ([(key, member)], false, [])
  | _ + 1, .text key :: _ => ([(key, .broken)], false, [])
  | _ + 1, _ => ([], false, [])

end

/-- The tree of a token sequence, and whether nothing follows it. A token is the first one of at
most two calls, so twice their number is steps enough. -/
def ofTokens (tokens : List Token) : Document × Bool :=
  let (document, rest) := value (2 * tokens.length + 1) tokens
  (document, rest.isEmpty)

/-- The tree of a text, and whether nothing follows it. -/
def ofText (s : String) : Document × Bool := ofTokens (Token.ofText s)

mutual

/-- Whether the text of the document is JSON throughout. Numbers of any size, unpaired surrogates
and any nesting are. -/
def wellFormed : Document → Bool
  | .array items closed => itemsWellFormed items && closed
  | .object members closed => membersWellFormed members && closed
  | .broken => false
  | _ => true

def itemsWellFormed : List Document → Bool
  | [] => true
  | item :: rest => item.wellFormed && itemsWellFormed rest

def membersWellFormed : List (Option String × Document) → Bool
  | [] => true
  | (_, member) :: rest => member.wellFormed && membersWellFormed rest

end

mutual

/-- The document taken whole, with containers nested at most so many levels deep. There is none if
the text is damaged, a number is too large or a string has no text. -/
def value? : Nat → Document → Option Value
  | _, .null => some .null
  | _, .bool b => some (.bool b)
  | _, .number n => n.map .number
  | _, .text s => s.map .text
  | levels + 1, .array items true => (itemValues? levels items).map .array
  | levels + 1, .object members true => (memberValues? levels members).map .object
  | _, _ => none

def itemValues? (levels : Nat) : List Document → Option (List Value)
  | [] => some []
  | item :: rest => do return (← value? levels item) :: (← itemValues? levels rest)

def memberValues? (levels : Nat) :
    List (Option String × Document) → Option (List (String × Value))
  | [] => some []
  | (key, member) :: rest => do
    return (← key, ← value? levels member) :: (← memberValues? levels rest)

end

end Document

end Advisor.Json
