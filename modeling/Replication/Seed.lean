import Replication.Digest.Sha256
import Replication.Failure

/-!
# Seeds of a proof of replication

Every random choice of a graph comes from a seed that is bound to the identifier of the proof of
replication and to the purpose of the choice.
-/

namespace Replication

/-- What a seed is used for. -/
inductive SeedPurpose
  | sampling
  | permutation
deriving DecidableEq

namespace SeedPurpose

/-- The text that separates seeds of different purposes. -/
def tag : SeedPurpose → String
  | sampling => "Filecoin_DRSample"
  | permutation => "Filecoin_Feistel"

/-- The seed of a proof of replication for a purpose. -/
def seed (purpose : SeedPurpose) (id : PorepId) : Element :=
  Sha256.digest (purpose.tag.toUTF8.toList ++ id.bytes)

end SeedPurpose

/-- The number of bytes of a sampling seed; a node number fills up the key of a generator. -/
def samplingSeedSize : Nat := 28

/-- The seed from which the parents of a graph are sampled. -/
def samplingSeed (id : PorepId) : Bytes :=
  (SeedPurpose.sampling.seed id).bytes.take samplingSeedSize

/-- The four keys of the permutation behind a graph's expander. -/
def permutationKeys (id : PorepId) : List UInt64 :=
  (pieces 8 (SeedPurpose.permutation.seed id).bytes).map fun piece =>
    (Bytes.toNatLE piece).toUInt64

/-- The identifier of a proof of replication from untrusted bytes. -/
def PorepId.ofBytes (bytes : Bytes) : Result PorepId :=
  match Element.ofBytes? bytes with
  | some id => .ok id
  | none => refuse (.malformedPorepId bytes.length)

end Replication
