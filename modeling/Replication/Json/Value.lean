/-!
# JSON documents

A document keeps the members of an object in order and keeps numbers apart by what a reader of
machine words can do with them: integers from zero to `2 ^ 64 - 1`, and all other numbers as they
are written. A record is read from an object, whose unknown members do not matter, or from an
array of its fields in order.

Half of a surrogate pair is no character, so a string that holds one is no text, and neither is
such a name. What is spoilt by it has no value that a reader could use, yet it may stand where
the value does not matter.
-/

namespace Replication

/-- A JSON document. An `illegible` one is a string that is no text, or an object with a member
whose name is no text. -/
inductive Json
  | null
  | bool (value : Bool)
  | natural (value : Nat)
  | number (written : String)
  | string (text : String)
  | array (items : List Json)
  | object (members : List (String × Json))
  | illegible

namespace Json

/-- The object with members whose names may be no text. -/
def ofMembers (members : List (Option String × Json)) : Json :=
  match members.mapM fun m => m.1.map fun name => (name, m.2) with
  | some members => object members
  | none => illegible

/-- The member of an object with a name, if there is exactly one. -/
def member? (members : List (String × Json)) (name : String) : Option Json :=
  match members.filter fun m => m.1 == name with
  | [m] => some m.2
  | _ => none

/-- The fields of a record, all of which must be there. -/
def record? (names : List String) : Json → Option (List Json)
  | array items => if items.length = names.length then some items else none
  | object members => names.mapM (member? members)
  | _ => none

/-- The items of an array, each read by `read`. -/
def listOf? {α : Type} (read : Json → Option α) : Json → Option (List α)
  | array items => items.mapM read
  | _ => none

/-- A natural number below a limit. -/
def below? (limit : Nat) : Json → Option Nat
  | natural n => if n < limit then some n else none
  | _ => none

/-- A truth value. -/
def truth? : Json → Option Bool
  | bool b => some b
  | _ => none

end Json

end Replication
