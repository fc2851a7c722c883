import Replication.Binary
import Replication.Proof.ChallengeProof

/-!
# Binary forms of proofs

Every part of a proof is written field by field, without names and without separators.
-/

namespace Replication

namespace Merkle

/-- The binary form of a step. -/
def Step.toBytes (s : Step) : Bytes :=
  Binary.ofList Element.bytes s.siblings ++ Binary.ofUInt64 s.index

def Step.read : Reader Step := fun bytes => do
  let (siblings, bytes) ← Binary.readList Binary.readElement bytes
  let (index, bytes) ← Binary.readUInt64 bytes
  return (⟨siblings, index⟩, bytes)

/-- The binary form of an opening. -/
def Opening.toBytes (o : Opening) : Bytes :=
  o.root.bytes ++ o.leaf.bytes ++ Binary.ofList Step.toBytes o.path

def Opening.read : Reader Opening := fun bytes => do
  let (root, bytes) ← Binary.readElement bytes
  let (leaf, bytes) ← Binary.readElement bytes
  let (path, bytes) ← Binary.readList Step.read bytes
  return (⟨root, leaf, path⟩, bytes)

end Merkle

/-- The binary form of a column. -/
def Column.toBytes (c : Column) : Bytes :=
  Binary.ofUInt32 c.index ++ Binary.ofList Element.bytes c.rows

def Column.read : Reader Column := fun bytes => do
  let (index, bytes) ← Binary.readUInt32 bytes
  let (rows, bytes) ← Binary.readList Binary.readElement bytes
  return (⟨index, rows⟩, bytes)

/-- The binary form of an opened column. -/
def ColumnOpening.toBytes (o : ColumnOpening) : Bytes := o.column.toBytes ++ o.opening.toBytes

def ColumnOpening.read : Reader ColumnOpening := fun bytes => do
  let (column, bytes) ← Column.read bytes
  let (opening, bytes) ← Merkle.Opening.read bytes
  return (⟨column, opening⟩, bytes)

/-- The binary form of the columns around a challenge. -/
def ColumnOpenings.toBytes (c : ColumnOpenings) : Bytes :=
  c.challenged.toBytes ++ Binary.ofList ColumnOpening.toBytes c.base
    ++ Binary.ofList ColumnOpening.toBytes c.expander

def ColumnOpenings.read : Reader ColumnOpenings := fun bytes => do
  let (challenged, bytes) ← ColumnOpening.read bytes
  let (base, bytes) ← Binary.readList ColumnOpening.read bytes
  let (expander, bytes) ← Binary.readList ColumnOpening.read bytes
  return (⟨challenged, base, expander⟩, bytes)

/-- The binary form of an opened label. -/
def LabelOpening.toBytes (o : LabelOpening) : Bytes :=
  Binary.ofList Element.bytes o.parents ++ Binary.ofUInt32 o.layer ++ Binary.ofUInt64 o.node

def LabelOpening.read : Reader LabelOpening := fun bytes => do
  let (parents, bytes) ← Binary.readList Binary.readElement bytes
  let (layer, bytes) ← Binary.readUInt32 bytes
  let (node, bytes) ← Binary.readUInt64 bytes
  return (⟨parents, layer, node⟩, bytes)

namespace ChallengeProof

/-- The binary form of the proof of a challenge. -/
def toBytes (p : ChallengeProof) : Bytes :=
  p.dataOpening.toBytes ++ p.replicaOpening.toBytes ++ p.columns.toBytes
    ++ Binary.ofList LabelOpening.toBytes p.labels ++ p.key.toBytes

def read : Reader ChallengeProof := fun bytes => do
  let (dataOpening, bytes) ← Merkle.Opening.read bytes
  let (replicaOpening, bytes) ← Merkle.Opening.read bytes
  let (columns, bytes) ← ColumnOpenings.read bytes
  let (labels, bytes) ← Binary.readList LabelOpening.read bytes
  let (key, bytes) ← LabelOpening.read bytes
  return (⟨dataOpening, replicaOpening, columns, labels, key⟩, bytes)

/-- The binary form of the proofs of a partition. -/
def listToBytes (proofs : List ChallengeProof) : Bytes := Binary.ofList toBytes proofs

/-- The proofs of a partition from their binary form; bytes after it are not looked at. -/
def listOfBytes? (bytes : Bytes) : Option (List ChallengeProof) :=
  (Binary.readList read bytes).map Prod.fst

end ChallengeProof

/-- The binary form of a commitment. -/
def Commitment.toBytes (c : Commitment) : Bytes := c.data.bytes ++ c.replica.bytes

end Replication
