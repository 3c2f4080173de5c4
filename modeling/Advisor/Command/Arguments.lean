/-!
# Arguments

How the words behind the program's name are read. Words are taken one after the other; the first one
that does not fit ends the reading. A word that begins with a dash names an option, unless it is a
dash alone or stands behind two dashes. Every option takes a value, which is attached to it or is
the next word.
-/

namespace Advisor.Command

/-- An option, by its letter after one dash and its name after two. -/
structure Switch where
  letter : Char
  name : String
deriving DecidableEq, Repr

/-- Whether a word names an option or ends the options. -/
def isDashed (word : String) : Bool :=
  match word.toList with
  | ['-'] => false
  | c :: _ => c = '-'
  | [] => false

/-- A name and what stands behind its equals sign. -/
def cutAtEquals : List Char → List Char × Option (List Char)
  | [] => ([], none)
  | c :: rest =>
    if c = '=' then ([], some rest)
    else
      let (name, value) := cutAtEquals rest
      (c :: name, value)

/-- The value attached to the letter of an option. -/
def attached : List Char → Option (List Char)
  | [] => none
  | '=' :: value => some value
  | value => some value

/-- The option that a word names, with the value attached to it. -/
def named (known : List Switch) (word : String) : Option (Switch × Option String) :=
  match word.toList with
  | '-' :: '-' :: rest =>
    let (name, value) := cutAtEquals rest
    (known.find? (·.name = String.ofList name)).map (·, value.map String.ofList)
  | '-' :: letter :: rest =>
    (known.find? (·.letter = letter)).map (·, (attached rest).map String.ofList)
  | _ => none

/-- The operands and the values of options among some words. -/
structure Arguments where
  operands : List String
  values : List (Switch × String)
deriving DecidableEq, Repr

namespace Arguments

/-- The value of an option. -/
def value? (a : Arguments) (s : Switch) : Option String := (a.values.find? (·.1 = s)).map (·.2)

/-- Adds an operand in front. -/
def withOperand (word : String) (a : Arguments) : Arguments :=
  { a with operands := word :: a.operands }

/-- Adds the value of an option, which may be given once. -/
def withValue (s : Switch) (value : String) (a : Arguments) : Option Arguments :=
  if (a.value? s).isSome then none else some { a with values := (s, value) :: a.values }

/-- Reads words among which these options may stand. -/
def ofWords (known : List Switch) : List String → Option Arguments
  | [] => some ⟨[], []⟩
  | word :: rest =>
    if word = "--" then some ⟨rest, []⟩
    else if isDashed word then
      match named known word with
      | none => none
      | some (s, some value) => (ofWords known rest).bind (withValue s value)
      | some (s, none) =>
        match rest with
        | [] => none
        | value :: rest =>
          if isDashed value then none else (ofWords known rest).bind (withValue s value)
    else (ofWords known rest).map (withOperand word)

end Arguments

end Advisor.Command
