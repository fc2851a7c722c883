import Replication.Proof.ChallengeProof
import Replication.Replica.Sector
import Replication.Scheme

/-!
# Proofs of replication

A partition is proved by a proof of each of its challenges. Whether the prover verifies each proof
before it goes on to the next is a setting. All proofs of a partition, and all partitions of a
replica, share the roots of the column tree and of the replica tree.
-/

namespace Replication

namespace Replica

/-- The opening of the column of a node. -/
def openColumn (witness : Witness) (node : Nat) : Result ColumnOpening := do
  let column ← Column.ofLayers witness.layers node.toUInt32
  ColumnOpening.ofColumn column witness.columnTree

/-- The openings of the columns around a challenge. -/
def openColumns (g : LayerGraph) (witness : Witness) (challenge : Nat) :
    Result ColumnOpenings := do
  let parents ← g.parents challenge
  let challenged ← openColumn witness challenge
  let base ← (parents.take g.baseDegree).mapM (openColumn witness)
  let expander ← (parents.drop g.baseDegree).mapM (openColumn witness)
  return ⟨challenged, base, expander⟩

/-- The opening of the label of a challenge in a layer above the first. -/
def openLabel (g : LayerGraph) (layers : Layers) (challenge layer : Nat) :
    Result LabelOpening := do
  let labels ← layers.layer layer
  let below ← layers.layer (layer - 1)
  let parents ← Label.parentLabels g challenge labels (some below)
  return ⟨parents, layer.toUInt32, challenge.toUInt64⟩

/-- The proof of a challenge, put together from what the prover keeps. The key of the encoding is
opened like the last label. -/
def assembleProof (params : Params) (witness : Witness) (challenge : Nat) :
    Result ChallengeProof := do
  let layers := params.plan.layers
  let dataOpening ← witness.dataTree.openAt challenge
  let columns ← openColumns params.graph witness challenge
  let replicaOpening ← witness.replicaTree.openAt challenge
  let labels ←
    Result.forRange (openLabel params.graph witness.layers challenge) 2 (layers - 1)
  let key ← openLabel params.graph witness.layers challenge layers
  return ⟨dataOpening, replicaOpening, columns, labels, key⟩

/-- Refuses to hand out a proof that does not verify at its challenge. -/
def requireValid (params : Params) (statement : Statement) (challenge : Nat)
    (proof : ChallengeProof) : Result Unit := do
  let valid ← proof.verify params statement challenge
  Result.require (valid = true) (.unmet (.validProof challenge))

/-- The proof of a challenge, which a prover verifies at once if its settings say so. -/
def proveChallenge (settings : Settings) (params : Params) (statement : Statement)
    (witness : Witness) (challenge : Nat) : Result ChallengeProof := do
  let proof ← assembleProof params witness challenge
  if settings.verifyWhileProving then
    requireValid params statement challenge proof
  return proof

/-- The proofs of all challenges of the statement's partition. -/
def prove (settings : Settings) (params : Params) (statement : Statement) (witness : Witness) :
    Result (List ChallengeProof) := do
  let layers := params.plan.layers
  Result.require (1 < layers) (.unmet .enoughLayers)
  Result.require (witness.layers.count = layers)
    (.unmet (.labelledLayers layers witness.layers.count))
  match statement.commitment with
  | none => refuse (.unmet .commitmentKnown)
  | some commitment => do
    Result.require (commitment.data = witness.dataTree.root) (.unmet .dataRoot)
    Result.require (witness.inner.columns = witness.columnTree.root) (.unmet .columnRoot)
    Result.require (witness.inner.replica = witness.replicaTree.root) (.unmet .replicaRoot)
    let challenges ←
      statement.challenges params.plan params.graph.size (some (statement.partition.getD 0))
    challenges.mapM (proveChallenge settings params statement witness)

/-- The proofs share the given roots. -/
def SharesRoots (columns replica : Element) (p : ChallengeProof) : Prop :=
  p.columnRoot = columns ∧ p.replicaRoot = replica

instance (columns replica : Element) (p : ChallengeProof) :
    Decidable (SharesRoots columns replica p) :=
  inferInstanceAs (Decidable (_ ∧ _))

/-- Whether the proofs of a partition, one for each challenge, answer them all under a commitment.
A failure in any of them counts before a no. -/
def verifyProofs (params : Params) (statement : Statement) (commitment : Commitment)
    (first : ChallengeProof) (proofs : List ChallengeProof) : Result Bool := do
  Merkle.Opening.requireCanonical [first.columnRoot, first.replicaRoot]
  let replica ← params.treeShape.family.pair first.columnRoot first.replicaRoot
  if commitment.replica = replica then do
    let challenges ←
      statement.challenges params.plan params.graph.size (some (statement.partition.getD 0))
    let results ← (proofs.zip challenges).mapM fun (proof, challenge) =>
      Result.andAlso
        (Result.check (SharesRoots first.columnRoot first.replicaRoot proof))
        (proof.verify params statement challenge)
    return results.all id
  else return false

/-- Whether the proofs of the statement's partition are valid. -/
def verify (params : Params) (statement : Statement) (proofs : List ChallengeProof) :
    Result Bool :=
  match statement.commitment with
  | none => .ok false
  | some commitment =>
    match proofs with
    | [] => refuse (.shape (.partitionSize (statement.partition.getD 0) 0
        params.plan.perPartition))
    | first :: _ => do
      Result.require (proofs.length = params.plan.perPartition)
        (.shape (.partitionSize (statement.partition.getD 0) proofs.length
          params.plan.perPartition))
      verifyProofs params statement commitment first proofs

/-- The scheme of proofs of replication under the settings of an installation; every partition has
challenges of its own. -/
def scheme (settings : Settings) : Scheme Params Statement Witness (List ChallengeProof) where
  prove := prove settings
  verify := verify
  withPartition := Statement.withPartition

/-- Verifies partitions from `k` on. -/
def verifyPartitionsFrom (params : Params) (statement : Statement) :
    Nat → List (List ChallengeProof) → Result (List Bool)
  | _, [] => .ok []
  | k, proofs :: rest => do
    let valid ← verify params (statement.withPartition (some k)) proofs
    let others ← verifyPartitionsFrom params statement (k + 1) rest
    return valid :: others

/-- Whether the proofs of all partitions are valid and share their roots. -/
def verifyAll (params : Params) (statement : Statement)
    (partitions : List (List ChallengeProof)) : Result Bool :=
  match partitions with
  | (first :: _) :: _ =>
    if ∀ proofs ∈ partitions, ∀ p ∈ proofs, SharesRoots first.columnRoot first.replicaRoot p
    then do
      let results ← verifyPartitionsFrom params statement 0 partitions
      return results.all id
    else .ok false
  | _ => refuse (.shape .noProofs)

end Replica

end Replication
