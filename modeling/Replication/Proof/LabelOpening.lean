import Replication.Encoding
import Replication.Label

/-!
# Openings of labels

The label of a node in a layer is opened by the labels of the node's parents. The label in the
last layer is also the key under which the node of data is encoded.
-/

namespace Replication

/-- The labels of the parents of a node in a layer. -/
structure LabelOpening where
  parents : List Element
  layer : UInt32
  node : UInt64
deriving DecidableEq

namespace LabelOpening

/-- The label that the parents give. -/
def label (o : LabelOpening) (replicaId : Element) : Element :=
  Label.hash replicaId o.layer o.node o.parents

/-- The opened label is the given one. -/
def Opens (o : LabelOpening) (replicaId label : Element) : Prop := label = o.label replicaId

instance (o : LabelOpening) (replicaId label : Element) : Decidable (o.Opens replicaId label) :=
  inferInstanceAs (Decidable (_ = _))

/-- Whether a node of data is encoded as given under the opened label. Data outside the field has
no encoding. -/
def verifyEncoding (o : LabelOpening) (replicaId encoded decoded : Element) : Result Bool :=
  if decoded.IsCanonical then do
    let expected ← Encoding.encode (o.label replicaId) decoded
    return encoded = expected
  else .ok false

end LabelOpening

end Replication
