import Replication.Element

/-!
# Encoding of nodes

A node of data is encoded by adding its key in the field, and decoded by subtracting it.
-/

namespace Replication.Encoding

/-- The encoding of a value under a key. -/
def encode (key value : Element) : Result Element := do
  let k ← key.expectScalar
  let v ← value.expectScalar
  return Element.ofScalar (k + v)

/-- The value with a given encoding under a key. -/
def decode (key value : Element) : Result Element := do
  let v ← value.expectScalar
  let k ← key.expectScalar
  return Element.ofScalar (v - k)

end Replication.Encoding
