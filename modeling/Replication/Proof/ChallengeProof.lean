import Replication.Proof.ColumnOpenings
import Replication.Proof.LabelOpening
import Replication.Replica.Params
import Replication.Replica.Statement

/-!
# Proofs of a challenge

A proof of one challenge opens the node of data, the node of the replica, the columns around the
challenge, the label in every layer above the first, and the key of the encoding. Its verification
first asks for the numbers of parts that the graph and the layers call for, and for canonical
elements; after that it can only say yes or no.
-/

namespace Replication

/-- The proof of a single challenge. The label openings start with the second layer. -/
structure ChallengeProof where
  dataOpening : Merkle.Opening
  replicaOpening : Merkle.Opening
  columns : ColumnOpenings
  labels : List LabelOpening
  key : LabelOpening
deriving DecidableEq

namespace ChallengeProof

/-- The root of the replica tree. -/
def replicaRoot (p : ChallengeProof) : Element := p.replicaOpening.root

/-- The root of the column tree. -/
def columnRoot (p : ChallengeProof) : Element := p.columns.root

/-- Asks for an opening that fits a tree with the given number of leaves. -/
def requireOpening (arity leaves : Nat) (o : Merkle.Opening) : Result Unit := do
  o.requireLevels arity leaves
  o.requireElements arity

/-- Asks for a column with a canonical label for every layer, and for a fitting opening. -/
def requireColumn (arity leaves layers : Nat) (o : ColumnOpening) : Result Unit := do
  Result.require (o.column.rows.length = layers)
    (.shape (.columnRows o.column.index.toNat o.column.rows.length layers))
  Merkle.Opening.requireCanonical o.column.rows
  requireOpening arity leaves o.opening

/-- Asks for a label opening with the given number of parents. -/
def requireParents (degree : Nat) (o : LabelOpening) : Result Unit :=
  Result.require (o.parents.length = degree) (.parentCount degree o.parents.length)

/-- Asks for the parts that a graph and a number of layers call for. -/
def requireShape (params : Params) (p : ChallengeProof) : Result Unit := do
  let g := params.graph
  let layers := params.plan.layers
  let arity := params.treeShape.arity
  Result.require (p.columns.base.length = g.baseDegree)
    (.parentCount g.baseDegree p.columns.base.length)
  Result.require (p.columns.expander.length = g.expansionDegree)
    (.parentCount g.expansionDegree p.columns.expander.length)
  Result.forEach (requireColumn arity g.size layers) p.columns.all
  requireOpening params.dataShape.arity g.size p.dataOpening
  requireOpening arity g.size p.replicaOpening
  Result.require (p.labels.length + 1 = layers)
    (.shape (.labelCount (layers - 1) p.labels.length))
  Result.forEach (requireParents g.degree) (p.labels ++ [p.key])

/-- Whether a label opening is about the given layer and node and has the labels of the opened
parents. -/
def verifyParents (columns : ColumnOpenings) (challenge layer : Nat) (o : LabelOpening) :
    Result Bool :=
  Result.andAlso (Result.check (o.layer.toNat = layer)) <|
    Result.andAlso (Result.check (o.node.toNat = challenge)) do
      let parents ← columns.parentLabels layer
      return o.parents = parents

/-- Whether a label opening gives the label of the challenged column. -/
def verifyLabel (replicaId : Element) (columns : ColumnOpenings) (challenge layer : Nat)
    (o : LabelOpening) : Result Bool :=
  Result.andAlso (verifyParents columns challenge layer o) do
    let label ← columns.challenged.column.label layer
    return o.Opens replicaId label

/-- The label opening of a layer, the second layer having the first one. -/
def labelAt (p : ChallengeProof) (layer : Nat) : Result LabelOpening := do
  let i ← Word.sub layer 2
  match p.labels[i]? with
  | some o => .ok o
  | none => abort .outOfRange

/-- Whether the label openings are right, layer by layer from the second on. -/
def verifyLabels (params : Params) (replicaId : Element) (challenge : Nat)
    (p : ChallengeProof) : Result Bool :=
  Result.allOf
    (fun layer => do
      let o ← p.labelAt layer
      verifyLabel replicaId p.columns challenge layer o)
    (List.range' 2 (params.plan.layers - 1))

/-- Whether an opening is valid and leads to the challenge. -/
def verifyOpening (shape : Merkle.Shape) (challenge : Nat) (o : Merkle.Opening) : Result Bool :=
  Result.andAlso (Result.check (o.opensAt shape.arity challenge)) (o.verify shape)

/-- Whether the opened node of data is the committed one. -/
def verifyData (params : Params) (commitment : Commitment) (challenge : Nat)
    (p : ChallengeProof) : Result Bool :=
  Result.andAlso (Result.check (p.dataOpening.opensAt params.dataShape.arity challenge)) <|
    Result.andAlso (Result.check (p.dataOpening.root = commitment.data))
      (p.dataOpening.verify params.dataShape)

/-- Whether the columns of the challenge and its parents are opened. -/
def verifyColumns (params : Params) (challenge : Nat) (p : ChallengeProof) : Result Bool := do
  let parents ← params.graph.parents challenge
  p.columns.verify params.treeShape challenge parents

/-- Whether the opened node of the replica encodes the opened node of data under the opened
key. -/
def verifyEncoding (params : Params) (replicaId : Element) (challenge : Nat)
    (p : ChallengeProof) : Result Bool :=
  Result.andAlso (verifyParents p.columns challenge params.plan.layers p.key)
    (p.key.verifyEncoding replicaId p.replicaOpening.leaf p.dataOpening.leaf)

/-- Whether the parts of a proof, which has the right shape, are right. -/
def verifyParts (params : Params) (replicaId : Element) (commitment : Commitment)
    (challenge : Nat) (p : ChallengeProof) : Result Bool :=
  Result.andAlso (verifyData params commitment challenge p) <|
    Result.andAlso (verifyColumns params challenge p) <|
      Result.andAlso (verifyOpening params.treeShape challenge p.replicaOpening) <|
        Result.andAlso (verifyLabels params replicaId challenge p)
          (verifyEncoding params replicaId challenge p)

/-- Whether a proof answers a challenge. Nothing is proved of an unknown commitment. -/
def verify (params : Params) (statement : Statement) (challenge : Nat) (p : ChallengeProof) :
    Result Bool := do
  Result.require (challenge < params.graph.size) (.outOfBounds challenge params.graph.size)
  match statement.commitment with
  | none => return false
  | some commitment => do
    requireShape params p
    verifyParts params statement.replicaId commitment challenge p

end ChallengeProof

end Replication
