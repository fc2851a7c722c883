import Replication.Accumulator
import Replication.Binary
import Replication.Buffer
import Replication.Bytes
import Replication.Challenge
import Replication.Column
import Replication.Data
import Replication.Digest.Blake2b
import Replication.Digest.Sha256
import Replication.Element
import Replication.Encoding
import Replication.Failure
import Replication.Feistel
import Replication.Graph.Base
import Replication.Graph.Expander
import Replication.Graph.Layer
import Replication.Hasher
import Replication.Json.Text
import Replication.Json.Value
import Replication.Label
import Replication.Label.Layers
import Replication.Logarithm
import Replication.Merkle.FlatOpening
import Replication.Merkle.Opening
import Replication.Merkle.Shape
import Replication.Merkle.Tree
import Replication.Poseidon.Permutation
import Replication.Poseidon.RoundConstants
import Replication.Proof.BinaryForm
import Replication.Proof.ChallengeProof
import Replication.Proof.ColumnOpenings
import Replication.Proof.JsonForm
import Replication.Proof.LabelOpening
import Replication.Proofs.Accumulator
import Replication.Proofs.Binary
import Replication.Proofs.Challenge
import Replication.Proofs.CycleWalk
import Replication.Proofs.Digests
import Replication.Proofs.Elements
import Replication.Proofs.Feistel
import Replication.Proofs.Graph.Buckets
import Replication.Proofs.Graph.Construction
import Replication.Proofs.Graph.Expansion
import Replication.Proofs.Graph.ParentBuffer
import Replication.Proofs.Graph.Parents
import Replication.Proofs.Graph.Sampling
import Replication.Proofs.Graph.Table
import Replication.Proofs.Graph.TableRead
import Replication.Proofs.HashChain
import Replication.Proofs.Json.Text
import Replication.Proofs.Label
import Replication.Proofs.LabelChain
import Replication.Proofs.LabelFrame
import Replication.Proofs.LabelPreimage
import Replication.Proofs.Layers
import Replication.Proofs.Layout
import Replication.Proofs.Logarithm
import Replication.Proofs.Merkle.Binding
import Replication.Proofs.Merkle.Completeness
import Replication.Proofs.Merkle.Digits
import Replication.Proofs.Merkle.Height
import Replication.Proofs.Merkle.Opening
import Replication.Proofs.Merkle.Position
import Replication.Proofs.Merkle.Shape
import Replication.Proofs.Merkle.Totality
import Replication.Proofs.Merkle.Tree
import Replication.Proofs.Outcome
import Replication.Proofs.Pieces
import Replication.Proofs.Proof.ChallengeProof
import Replication.Proofs.Proof.ColumnOpenings
import Replication.Proofs.Proof.Serialization
import Replication.Proofs.Proof.StatedIndices
import Replication.Proofs.Proof.Totality
import Replication.Proofs.Replica.Acceptance
import Replication.Proofs.Replica.Alteration
import Replication.Proofs.Replica.Completeness
import Replication.Proofs.Replica.Extraction
import Replication.Proofs.Replica.Honest
import Replication.Proofs.Replica.NodeExtraction
import Replication.Proofs.Replica.Partition
import Replication.Proofs.Replica.Repartition
import Replication.Proofs.Replica.Replacement
import Replication.Proofs.Replica.Replication
import Replication.Proofs.Replica.Setup
import Replication.Proofs.Replica.Soundness
import Replication.Proofs.Replica.Totality
import Replication.Random.ChaCha
import Replication.Random.XorShift
import Replication.Replica.Params
import Replication.Replica.Partition
import Replication.Replica.Sector
import Replication.Replica.Statement
import Replication.Scalar
import Replication.Scheme
import Replication.Seed
import Replication.Settings
import Replication.Word
