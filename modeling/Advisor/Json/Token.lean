import Advisor.Json.Numeral
import Advisor.Json.Quoted

/-!
# Tokens

The text of a document is cut into tokens. Where it cannot be cut any further a last token says so;
readers that never get that far do not notice. A number that is too large and a string with an
unpaired surrogate are well-formed tokens without a value.
-/

namespace Advisor.Json

inductive Token where
  | beginArray
  | endArray
  | beginObject
  | endObject
  | comma
  | colon
  | null
  | bool (value : Bool)
  | number (value : Option Number)
  | text (value : Option String)
  | junk
deriving DecidableEq, Repr

namespace Token

def isBlank (c : Char) : Bool := c = ' ' || c = '\t' || c = '\n' || c = '\r'

def punctuation? : Char → Option Token
  | '[' => some .beginArray
  | ']' => some .endArray
  | '{' => some .beginObject
  | '}' => some .endObject
  | ',' => some .comma
  | ':' => some .colon
  | _ => none

/-- The token that begins with the character, and the text behind it. -/
def next (c : Char) (rest : List Char) : Option (Token × List Char) :=
  match punctuation? c with
  | some token => some (token, rest)
  | none =>
    match c, rest with
    | '"', rest =>
      (Quoted.scan rest).map fun (pieces, rest) =>
        (.text ((Quoted.text? pieces).map String.ofList), rest)
    | 'n', 'u' :: 'l' :: 'l' :: rest => some (.null, rest)
    | 't', 'r' :: 'u' :: 'e' :: rest => some (.bool true, rest)
    | 'f', 'a' :: 'l' :: 's' :: 'e' :: rest => some (.bool false, rest)
    | c, rest => (Numeral.scan (c :: rest)).map fun (numeral, rest) =>
        (.number numeral.number?, rest)

/-- The tokens of the text, of which at most so many characters and blanks are taken one by one. -/
def scan : Nat → List Char → List Token
  | 0, _ => []
  | _, [] => []
  | n + 1, c :: rest =>
    if isBlank c then scan n rest
    else match next c rest with
      | some (token, rest) => token :: scan n rest
      | none => [.junk]

/-- The tokens of a text. Each takes a character at least, so its length is steps enough. -/
def ofText (s : String) : List Token := scan s.length s.toList

end Token

end Advisor.Json
