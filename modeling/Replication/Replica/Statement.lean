import Replication.Challenge
import Replication.Element
import Replication.Hasher

/-!
# Statements about replicas

A statement names a replica, the seed of its challenges, what was committed to, and a partition.
-/

namespace Replication

/-- The public commitments: to the data, and to the columns together with the replica. -/
structure Commitment where
  data : Element
  replica : Element
deriving DecidableEq

/-- The roots that the public commitment to the replica hashes. -/
structure InnerCommitment where
  columns : Element
  replica : Element
deriving DecidableEq

/-- What a proof is about. -/
structure Statement where
  replicaId : Element
  seed : Element
  commitment : Option Commitment
  partition : Option Nat
deriving DecidableEq

namespace Statement

/-- The statement about a partition. -/
def withPartition (statement : Statement) (partition : Option Nat) : Statement :=
  { statement with partition }

/-- The challenges of a partition, the first one where none is given. -/
def challenges (statement : Statement) (plan : ChallengePlan) (leaves : Nat)
    (partition : Option Nat) : Result (List Nat) :=
  plan.challenges leaves statement.replicaId statement.seed (partition.getD 0)

end Statement

/-- The identifier of a replica, bound to its prover, sector, ticket, data and proof type. -/
def ReplicaId.derive (proverId : Element) (sectorId : UInt64) (ticket : Element) (commD : Bytes)
    (porepId : PorepId) : Element :=
  HashFamily.truncatedDigest
    (proverId.bytes ++ Bytes.natBE 8 sectorId.toNat ++ ticket.bytes ++ commD ++ porepId.bytes)

end Replication
