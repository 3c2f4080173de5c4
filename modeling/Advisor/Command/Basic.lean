import Advisor.Command.Arguments

/-!
# Commands

What the program can be asked to do.
-/

namespace Advisor

inductive Command where
  /-- Translates the script in a file. The program goes to the file `code` or is printed; the
  descriptors go to the file `descriptors` if there is one. -/
  | translate (script : String) (code descriptors settings : Option String)
  /-- Prints the descriptors of the script in a file. -/
  | describe (script : String) (settings : Option String)
  /-- Prints the host catalogue. -/
  | catalogue
  | version
deriving DecidableEq, Repr

namespace Command

def codeSwitch : Switch := ⟨'o', "out"⟩

def descriptorsSwitch : Switch := ⟨'m', "metadata"⟩

def settingsSwitch : Switch := ⟨'c', "config"⟩

def levelSwitch : Switch := ⟨'l', "log-level"⟩

/-- The arguments, if no path among them is empty. -/
def paths (a : Arguments) : Option Arguments :=
  if a.operands.all (· ≠ "") && a.values.all (·.2 ≠ "") then some a else none

/-- The command that the word names, with the words behind it. -/
def ofVerb (verb : String) (words : List String) : Option Command :=
  match verb with
  | "translate" => do
    let a ← (Arguments.ofWords [codeSwitch, descriptorsSwitch, settingsSwitch] words).bind paths
    match a.operands with
    | [script] =>
      some (.translate script (a.value? codeSwitch) (a.value? descriptorsSwitch)
        (a.value? settingsSwitch))
    | _ => none
  | "metadata" => do
    let a ← (Arguments.ofWords [settingsSwitch] words).bind paths
    match a.operands with
    | [script] => some (.describe script (a.value? settingsSwitch))
    | _ => none
  | "builtins" => do
    let a ← Arguments.ofWords [] words
    if a.operands.isEmpty then some .catalogue else none
  | _ => none

/-- Whether a word asks for the version. -/
def asksVersion (word : String) : Bool :=
  word = "--version" || word.toList.take 2 = ['-', 'V']

/-- Reads the words from the first one on. How much is logged may be said once, in front of the
command; the version may be asked for there too. -/
def ofWordsFrom (leveled : Bool) : List String → Option Command
  | [] => none
  | word :: rest =>
    if asksVersion word then some .version
    else if isDashed word then
      match named [levelSwitch] word with
      | none => none
      | some (_, some _) => if leveled then none else ofWordsFrom true rest
      | some (_, none) =>
        match rest with
        | [] => none
        | value :: rest => if isDashed value || leveled then none else ofWordsFrom true rest
    else ofVerb word rest

/-- The command that some words give, if they give one. -/
def ofWords (words : List String) : Option Command := ofWordsFrom false words

end Command

end Advisor
