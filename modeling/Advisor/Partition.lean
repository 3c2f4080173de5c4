import Advisor.Script.Declaration

/-!
# Partitions of a script's names

The declarations of a script fall into inputs, globals and functions. Of several declarations of one
name the last wins. It takes the place of the one before it, unless that was an input and it is a
global or the other way round: then the name moves to the end of the other list. Each such collision
and each declaration that is skipped leaves a warning.
-/

namespace Advisor

inductive Warning where
  | skipped (kind : String)
  /-- The name was in the other list of variables. -/
  | redeclared (name : String) (isInput : Bool)
  | variableTwice (name : String)
  | functionTwice (name : String)
deriving DecidableEq, Repr

def Warning.message : Warning → String
  | skipped kind => "Skipped unsupported declaration '" ++ kind ++ "'"
  | redeclared name isInput =>
    "Variable '" ++ name ++ "' redeclared as " ++ (if isInput then "input" else "global")
      ++ "; later declaration wins"
  | variableTwice name => "Variable '" ++ name ++ "' declared twice; later declaration wins"
  | functionTwice name => "Function '" ++ name ++ "' declared twice; later declaration wins"

structure Partition where
  inputs : List Variable
  globals : List Variable
  functions : List Function
  warnings : List Warning

namespace Partition

def empty : Partition := ⟨[], [], [], []⟩

/-- The list with the first entry of the same name replaced. -/
def overwrite {α : Type} (name : α → String) (new : α) : List α → List α
  | [] => []
  | old :: rest => if name old = name new then new :: rest else old :: overwrite name new rest

@[simp] theorem map_overwrite {α : Type} (name : α → String) (new : α) (old : List α) :
    (overwrite name new old).map name = old.map name := by
  induction old with
  | nil => rfl
  | cons a rest ih =>
    by_cases h : name a = name new
    · simp [overwrite, h]
    · simp [overwrite, h, ih]

/-- The lists that a variable belongs to and does not belong to, after it has been declared. -/
structure Placed where
  own : List Variable
  other : List Variable
  warnings : List Warning

/-- Declares a variable. A name from the other list moves to the end of its own, one that is in its
own list keeps its place, and a new one comes last. -/
def place (own other : List Variable) (v : Variable) : Placed :=
  if other.any (·.name = v.name) then
    ⟨own ++ [v], other.eraseP (·.name = v.name), [.redeclared v.name v.isInput]⟩
  else if own.any (·.name = v.name) then
    ⟨overwrite (·.name) v own, other, [.variableTwice v.name]⟩
  else ⟨own ++ [v], other, []⟩

def addVariable (p : Partition) (v : Variable) : Partition :=
  if v.isInput then
    let placed := place p.inputs p.globals v
    { p with
      inputs := placed.own
      globals := placed.other
      warnings := p.warnings ++ placed.warnings }
  else
    let placed := place p.globals p.inputs v
    { p with
      inputs := placed.other
      globals := placed.own
      warnings := p.warnings ++ placed.warnings }

def addFunction (p : Partition) (f : Function) : Partition :=
  if p.functions.any (·.name = f.name) then
    { p with
      functions := overwrite (·.name) f p.functions
      warnings := p.warnings ++ [.functionTwice f.name] }
  else { p with functions := p.functions ++ [f] }

def add (p : Partition) : Declaration → Partition
  | .variable v => p.addVariable v
  | .function f => p.addFunction f
  | .unsupported kind => { p with warnings := p.warnings ++ [.skipped kind] }

def ofDeclarations (ds : List Declaration) : Partition := ds.foldl add empty

end Partition

/-- The names of a script, by what they name. -/
structure Names where
  inputs : List String
  globals : List String
  functions : List String
deriving DecidableEq, Repr

namespace Names

def isInput (n : Names) (name : String) : Bool := n.inputs.contains name

def isGlobal (n : Names) (name : String) : Bool := n.globals.contains name

def isFunction (n : Names) (name : String) : Bool := n.functions.contains name

end Names

def Partition.names (p : Partition) : Names :=
  ⟨p.inputs.map (·.name), p.globals.map (·.name), p.functions.map (·.name)⟩

end Advisor
