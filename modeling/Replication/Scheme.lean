import Replication.Failure

/-!
# Proof schemes

A proof scheme proves and verifies statements one partition at a time. Proofs of all partitions
and their verification are derived from that; a scheme may replace how all partitions are
verified.
-/

namespace Replication

/-- A scheme over parameters, statements, witnesses and proofs. Unless it says otherwise, a
statement is the same for every partition. -/
structure Scheme (Params Statement Witness Proof : Type) where
  prove : Params → Statement → Witness → Result Proof
  verify : Params → Statement → Proof → Result Bool
  withPartition : Statement → Option Nat → Statement := fun statement _ => statement

namespace Scheme

variable {Params Statement Witness Proof : Type}

/-- The proofs of a number of partitions, up to the first failure. -/
def proveAll (s : Scheme Params Statement Witness Proof) (params : Params)
    (statement : Statement) (witness : Witness) (partitions : Nat) : Result (List Proof) :=
  if partitions = 0 then refuse (.unevenPartitions 0 0)
  else
    Result.forRange
      (fun k => s.prove params (s.withPartition statement (some k)) witness) 0 partitions

/-- Whether all proofs are valid, from partition `k` on, up to the first that is not. -/
def verifyFrom (s : Scheme Params Statement Witness Proof) (params : Params)
    (statement : Statement) : Nat → List Proof → Result Bool
  | _, [] => .ok true
  | k, proof :: proofs =>
    Result.andAlso (s.verify params (s.withPartition statement (some k)) proof)
      (verifyFrom s params statement (k + 1) proofs)

/-- Whether the proofs of all partitions are valid. -/
def verifyAll (s : Scheme Params Statement Witness Proof) (params : Params)
    (statement : Statement) (proofs : List Proof) : Result Bool :=
  s.verifyFrom params statement 0 proofs

/-- Whether a number of partitions meets the requirements; without further knowledge it does. -/
def satisfies (_ : Scheme Params Statement Witness Proof) (_ : Params) (_ : Nat) : Bool := true

end Scheme

end Replication
