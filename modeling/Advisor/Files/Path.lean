import Advisor.Text.Join

/-!
# Paths

A path is read as the pieces between its slashes. Empty pieces and dots stay where they are; behind
the first piece they lead nowhere, so the directories around a path skip them.
-/

namespace Advisor.Files.Path

/-- The parts of a list between its slashes. -/
def split : List Char → List (List Char)
  | [] => [[]]
  | c :: rest =>
    if c = '/' then [] :: split rest
    else match split rest with
      | [] => [[c]]
      | p :: ps => (c :: p) :: ps

theorem split_ne_nil (s : List Char) : split s ≠ [] := by
  cases s with
  | nil => simp [split]
  | cons c rest =>
    rw [split]
    split
    · simp
    · split <;> simp

theorem slash_not_mem_of_mem_split {s p : List Char} (h : p ∈ split s) : '/' ∉ p := by
  induction s generalizing p with
  | nil => simp_all [split]
  | cons c rest ih =>
    rw [split] at h
    split at h
    · rcases List.mem_cons.1 h with rfl | h
      · simp
      · exact ih h
    · rename_i hc
      split at h
      · rw [List.mem_singleton] at h
        simp [h, Ne.symm hc]
      · rename_i q ps hs
        rcases List.mem_cons.1 h with rfl | h
        · have : '/' ∉ q := ih (by simp [hs])
          simp [this, Ne.symm hc]
        · exact ih (by simp [hs, h])

/-- The pieces of a path; there is at least one. -/
def pieces (path : String) : List String := (split path.toList).map String.ofList

/-- Whether a piece behind the first leads nowhere. -/
def isIdle (piece : String) : Bool := piece = "" || piece = "."

/-- The pieces without the empty ones at the end. -/
def withoutSlashes (ps : List String) : List String := (ps.reverse.dropWhile (· = "")).reverse

/-- The path itself and the directories around it, innermost first. All are given by their pieces
from last to first. -/
def outward : List String → List (List String)
  | [] => []
  | [p] => if p = "" then [] else [[p]]
  | p :: q :: rest =>
    if isIdle p then outward (q :: rest) else (p :: q :: rest) :: outward (q :: rest)

/-- The directories that a path names around its last piece, innermost first. -/
def directories (path : String) : List String :=
  (outward (pieces path).reverse).tail.map fun ps => Text.join "/" ps.reverse

/-- The most bytes that a piece has. -/
def longestPiece : Nat := 255

/-- The most bytes that a path has. -/
def longest : Nat := 4095

/-- Whether a path starts at the root and not at the working directory. -/
def isAbsolute (path : String) : Bool := path.toList.head? = some '/'

/-- Whether a path asks for a directory by a slash at its end. -/
def endsInSlash (path : String) : Bool := path.toList.getLast? = some '/'

end Advisor.Files.Path
