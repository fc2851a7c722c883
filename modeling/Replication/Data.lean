import Replication.Element
import Replication.Word

/-!
# Nodes of data

Data is read as nodes of thirty-two bytes each.
-/

namespace Replication.Data

/-- The position of the first byte of a node. -/
def offset (node : Nat) : Result Nat := Word.mul node nodeSize

/-- The bytes of a node. -/
def nodeAt (data : Bytes) (node : Nat) : Result Bytes := do
  let start ← offset node
  let stop ← Word.add start nodeSize
  Result.require (stop ≤ data.length) (.outOfBounds stop data.length)
  return (data.drop start).take nodeSize

/-- The nodes of data, all of which must be canonical elements. -/
def nodes (data : Bytes) : Result (List Element) :=
  (pieces nodeSize data).mapM Element.ofCanonicalBytes

end Replication.Data
