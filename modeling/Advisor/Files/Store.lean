import Advisor.Files.Fault
import Advisor.Files.Path

/-!
# Stores

A store is a tree of files and directories without links. A path is resolved piece by piece, and
every piece but the last must lead to a directory. An operation that is refused changes nothing.
-/

namespace Advisor.Files

/-- The names on the way from the root. -/
abbrev Location := List String

inductive Entry where
  | directory
  | file (bytes : ByteArray)

structure Store where
  /-- The locations that hold something, apart from the root. -/
  entries : List (Location × Entry)
  /-- Where relative paths start. -/
  working : Location

namespace Store

/-- A store that holds its working directory alone. -/
def blank : Store := ⟨[(["work"], .directory)], ["work"]⟩

/-- What is at a location. The root is always a directory. -/
def get? (s : Store) : Location → Option Entry
  | [] => some .directory
  | l => (s.entries.find? (·.1 = l)).map (·.2)

/-- The store with the entry at the location in place of what was there. -/
def put (s : Store) (l : Location) (e : Entry) : Store :=
  { s with entries := (l, e) :: s.entries.filter (·.1 ≠ l) }

theorem get?_put_self (s : Store) {l : Location} (h : l ≠ []) (e : Entry) :
    (s.put l e).get? l = some e := by
  cases l with
  | nil => exact absurd rfl h
  | cons n l => simp [put, get?]

theorem get?_put_of_ne (s : Store) {k l : Location} (h : k ≠ l) (e : Entry) :
    (s.put l e).get? k = s.get? k := by
  cases k with
  | nil => rfl
  | cons n k =>
    have kept : ∀ entry : Location × Entry,
        decide (decide (entry.1 ≠ l) = true ∧ decide (entry.1 = n :: k) = true)
          = decide (entry.1 = n :: k) := by
      intro entry
      by_cases hk : entry.1 = n :: k
      · simp [hk, h]
      · simp [hk]
    simp only [put, get?, List.find?_cons, decide_eq_false (Ne.symm h), List.find?_filter, kept]

/-- The location, if it is a directory. -/
def enter (s : Store) (l : Location) : Except Fault Location :=
  match s.get? l with
  | none => .error .missing
  | some (.file _) => .error .notDirectory
  | some .directory => .ok l

/-- Where a piece leads from a directory. -/
def step (here : Location) (piece : String) : Except Fault Location :=
  if Path.isIdle piece then .ok here
  else if piece = ".." then .ok here.dropLast
  else if Path.longestPiece < piece.utf8ByteSize then .error .nameTooLong
  else .ok (here ++ [piece])

/-- Where pieces lead. Each of them is taken from a directory. -/
def walk (s : Store) : Location → List String → Except Fault Location
  | here, [] => .ok here
  | here, p :: rest => do walk s (← step (← s.enter here) p) rest

/-- Where a path starts, unless nothing can have that path. -/
def start (s : Store) (path : String) : Except Fault Location :=
  if path = "" then .error .missing
  else if path.toList.contains '\x00' then .error .nulInName
  else if Path.longest < path.utf8ByteSize then .error .nameTooLong
  else .ok (if Path.isAbsolute path then [] else s.working)

/-- What a path leads to. -/
def lookup (s : Store) (path : String) : Except Fault Entry := do
  match s.get? (← s.walk (← s.start path) (Path.pieces path)) with
  | none => .error .missing
  | some e => .ok e

/-- The directory that the last piece of a path is taken from, and that piece if it is a name. -/
def site (s : Store) (path : String) : Except Fault (Location × Option String) := do
  let ps := Path.withoutSlashes (Path.pieces path)
  let parent ← s.enter (← s.walk (← s.start path) ps.dropLast)
  return (parent, ps.getLast?.filter fun p => !(Path.isIdle p || p = ".."))

def found (s : Store) (path : String) : Bool := (s.lookup path).isOk

def isDirectory (s : Store) (path : String) : Bool :=
  match s.lookup path with
  | .ok .directory => true
  | _ => false

def read (s : Store) (path : String) : Except Fault ByteArray := do
  match ← s.lookup path with
  | .directory => .error .directory
  | .file bytes => .ok bytes

/-- Makes one directory, where nothing is yet. -/
def makeDirectory (s : Store) (path : String) : Except Fault Store := do
  match ← s.site path with
  | (_, none) => .error .present
  | (parent, some name) =>
    let l ← step parent name
    match s.get? l with
    | some _ => .error .present
    | none => .ok (s.put l .directory)

/-- Writes a file, anew or over the old one. -/
def write (s : Store) (path : String) (bytes : ByteArray) : Except Fault Store := do
  match ← s.site path with
  | (_, none) => .error .directory
  | (parent, some name) =>
    if Path.endsInSlash path then .error .directory
    else
      let l ← step parent name
      match s.get? l with
      | some .directory => .error .directory
      | _ => .ok (s.put l (.file bytes))

end Store

end Advisor.Files
