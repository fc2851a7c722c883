import Replication.Digest.Sha256
import Replication.Word

/-!
# Challenges

A proof of replication answers a number of challenges, nodes drawn from the replica identifier, a
seed and the ordinal of the challenge. The challenges of a partition have consecutive ordinals,
which must fit 32 bits. Node zero is never challenged.
-/

namespace Replication

/-- The number of layers and the number of challenges of each partition. -/
structure ChallengePlan where
  layers : Nat
  perPartition : Nat
deriving DecidableEq

namespace ChallengePlan

/-- Splits challenges evenly over partitions. -/
def split (layers total partitions : Nat) : Result ChallengePlan :=
  if partitions = 0 ∨ total % partitions ≠ 0 then refuse (.unevenPartitions total partitions)
  else .ok ⟨layers, total / partitions⟩

/-- How a plan is described. -/
def description (plan : ChallengePlan) : String :=
  "LayerChallenges \x7b layers: " ++ toString plan.layers
    ++ ", max_count: " ++ toString plan.perPartition ++ " \x7d"

end ChallengePlan

namespace Challenge

/-- The bytes whose digest draws a challenge. -/
def preimage (replicaId seed : Element) (ordinal : Nat) : Bytes :=
  replicaId.bytes ++ seed.bytes ++ Bytes.natLE 4 ordinal

/-- The node drawn for an ordinal among the nodes above zero. -/
def draw (replicaId seed : Element) (leaves ordinal : Nat) : Nat :=
  (Sha256.digest (preimage replicaId seed ordinal)).value % (leaves - 1) + 1

/-- The ordinal of challenge `i` of partition `k` when every partition has `count`. -/
def ordinal (count k i : Nat) : Result Nat := do
  let before ← Word.mul count k
  let ordinal ← Word.add before i
  if ordinal < Word.halfLimit then return ordinal
  else do
    let partitions ← Word.add k 1
    refuse (.unevenPartitions count partitions)

/-- The challenges of partition `k` when every partition has `count`. -/
def derive (count leaves : Nat) (replicaId seed : Element) (k : Nat) : Result (List Nat) := do
  Result.require (2 ≤ leaves) (.graph (.tooFewLeaves leaves))
  Result.forRange (fun i => (ordinal count k i).map (draw replicaId seed leaves)) 0 count

end Challenge

/-- The challenges of partition `k` of a plan. -/
def ChallengePlan.challenges (plan : ChallengePlan) (leaves : Nat) (replicaId seed : Element)
    (k : Nat) : Result (List Nat) :=
  Challenge.derive plan.perPartition leaves replicaId seed k

end Replication
