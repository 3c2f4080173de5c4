import Advisor.Wire.Source

/-!
# Nodes

A node is an object whose member `type` holds its tag. The tag decides how the other members are
read, as nodes of the same kind, as lists of them or otherwise, so each member is kept together with
its readings. That way the readings of a whole value go once through its structure.
-/

namespace Advisor.Wire

/-- A value with what it gives when it is read as a node and as a list of nodes. -/
structure Reading (α : Type) where
  value : Json.Value
  node : Except Flaw α
  nodes : Except Flaw (List α)

/-- The members of an object with their readings. -/
abbrev Members (α : Type) := List (String × Reading α)

section Reading

variable {α : Type} (node : Members α → Except Flaw α)

mutual

/-- Both readings of a value, where `node` reads the members of an object. -/
def Reading.ofValue : Json.Value → Reading α
  | .object members =>
    ⟨.object members, node (Reading.ofMembers members), .error (.mismatch .map .sequence)⟩
  | .array items => ⟨.array items, .error .untagged, Reading.nodesOf items⟩
  | value => ⟨value, .error .untagged, .error (.mismatch (.ofValue value) .sequence)⟩

def Reading.ofMembers : List (String × Json.Value) → Members α
  | [] => []
  | (name, value) :: rest => (name, Reading.ofValue value) :: Reading.ofMembers rest

def Reading.nodesOf : List Json.Value → Except Flaw (List α)
  | [] => .ok []
  | item :: rest => do return (← (Reading.ofValue item).node) :: (← Reading.nodesOf rest)

end

end Reading

/-- The tag among the members of an object. -/
def tagOf (members : List (String × Json.Value)) : Except Flaw String :=
  match Json.latest "type" members with
  | some (.text tag) => .ok tag
  | some _ => .error .tagNotText
  | none => .error .untagged

namespace Members

variable {α β : Type}

/-- The members as they are in the object. -/
def values (members : Members α) : List (String × Json.Value) :=
  members.map fun member => (member.1, member.2.value)

/-- Reads the member of the name, if there is one. -/
def field? (members : Members α) (name : String) (read : Reading α → Except Flaw β) :
    Except Flaw (Option β) :=
  match Json.latest name members with
  | some member => some <$> read member
  | none => .ok none

/-- Reads a field under a second name, unless it was given under the first. -/
def respelled? (members : Members α) (name field : String) (earlier : Option β)
    (read : Reading α → Except Flaw β) : Except Flaw (Option β) :=
  match Json.latest name members with
  | some member => once field earlier (read member)
  | none => .ok earlier

end Members

namespace Reading

variable {α : Type}

/-- Null, or a node. -/
def node? (r : Reading α) : Except Flaw (Option α) := nullable (fun _ => r.node) r.value

end Reading

end Advisor.Wire
