import Advisor.Files.Store

/-!
# Environments

What the program asks of the world around it. It can run on the files of the system and on a store,
and what is shown of the second holds of the program, as both run the same definitions.
-/

namespace Advisor.Files

class Environment (m : Type → Type) where
  /-- Whether the path leads to something. -/
  found : String → m Bool
  isDirectory : String → m Bool
  read : String → m (Except Fault ByteArray)
  makeDirectory : String → m (Except Fault Unit)
  write : String → ByteArray → m (Except Fault Unit)
  print : String → m Unit

/-- A store and what has been printed. -/
structure Session where
  store : Store
  printed : String

namespace Session

def blank : Session := ⟨.blank, ""⟩

/-- Goes on with the new store, or with the old one if there is none. -/
def advance (change : Store → Except Fault Store) (s : Session) : Except Fault Unit × Session :=
  match change s.store with
  | .error e => (.error e, s)
  | .ok store => (.ok (), { s with store })

instance : Environment (StateM Session) where
  found path s := (s.store.found path, s)
  isDirectory path s := (s.store.isDirectory path, s)
  read path s := (s.store.read path, s)
  makeDirectory path := advance (·.makeDirectory path)
  write path bytes := advance (·.write path bytes)
  print text s := ((), { s with printed := s.printed ++ text })

end Session

section

variable {m : Type → Type} [Monad m] [Environment m]

/-- Makes a directory that may be there already. -/
def ensureDirectory (path : String) : m (Except Fault Unit) := do
  match ← Environment.makeDirectory path with
  | .ok () => return .ok ()
  | .error e => return if ← Environment.isDirectory path then .ok () else .error e

/-- Makes the first of the directories, and the ones around it as far as they are missing. -/
def ensureDirectories : List String → m (Except Fault Unit)
  | [] => return .ok ()
  | path :: around => do
    match ← ensureDirectory path with
    | .error .missing =>
      match ← ensureDirectories around with
      | .error e => return .error e
      | .ok () => ensureDirectory path
    | answer => return answer

end

end Advisor.Files
