import Replication.Buffer
import Replication.Logarithm
import Replication.Random.ChaCha
import Replication.Seed

/-!
# Depth-robust base graphs

The parents of a node are sampled in a *metagraph* in which every node stands for `degree - 1`
consecutive metanodes. For each parent a bucket of distances, each twice as large as the one
before, is drawn first and then a distance from that bucket. One more parent is always the
immediate predecessor, so the nodes have a unique topological order.
-/

namespace Replication

/-- The largest number of metanodes of a graph. Metanodes up to half of it are doubles; of the
others only the even ones are. -/
def metanodeLimit : Nat := 2 ^ 54

/-- A graph of sampled parents. -/
structure BaseGraph where
  nodes : Nat
  degree : Nat
  seed : Bytes
  two_le_degree : 2 ≤ degree
  two_le_nodes : 2 ≤ nodes
  nodes_lt : nodes < Word.halfLimit
  metanodes_le : nodes * (degree - 1) ≤ metanodeLimit
  length_seed : seed.length = samplingSeedSize
deriving DecidableEq

namespace BaseGraph

/-- The graph of a proof of replication with the given numbers of nodes and of parents. -/
def new (nodes degree : Nat) (id : PorepId) : Result BaseGraph :=
  if hd : degree < 2 then refuse (.graph (.baseDegreeTooSmall degree))
  else if hn : nodes < 2 ∨ Word.halfLimit ≤ nodes then refuse (.graph (.nodeCount nodes))
  else do
    let _ ← Word.mul nodes (degree - 1)
    if hm : metanodeLimit < nodes * (degree - 1) then refuse (.graph .tooManyMetagraphNodes)
    else
      return {
        nodes, degree, seed := samplingSeed id
        two_le_degree := by omega
        two_le_nodes := by omega
        nodes_lt := by omega
        metanodes_le := by omega
        length_seed := by
          simp [samplingSeed, samplingSeedSize, (SeedPurpose.sampling.seed id).length_bytes] }

/-- What is accepted: the parameters are kept as they are. -/
theorem degree_of_new {nodes degree : Nat} {id : PorepId} {g : BaseGraph}
    (h : new nodes degree id = .ok g) : g.degree = degree := by
  unfold new at h
  split at h
  · cases h
  split at h
  · cases h
  obtain ⟨_, _, h⟩ := Result.bind_eq_ok h
  split at h
  · cases h
  · cases h
    rfl

/-- The number of metanodes a node stands for. -/
def metaDegree (g : BaseGraph) : Nat := g.degree - 1

/-- The key under which the parents of a node are drawn. -/
def nodeKey (g : BaseGraph) (node : Nat) : Element where
  bytes := g.seed ++ Bytes.natLE 4 node
  length_bytes := by simp [g.length_seed, samplingSeedSize]

/-- The largest distance of a bucket for a metanode. -/
def largestDistance (metanode bucket : Nat) : Nat := min metanode (2 ^ bucket)

/-- The smallest distance of a bucket for a metanode. -/
def smallestDistance (metanode bucket : Nat) : Nat := max 2 (largestDistance metanode bucket / 2)

/-- The number of buckets for a metanode. -/
def bucketCount (metanode : Nat) : Nat := Logarithm.ceilLog2 metanode

/-- The parent that two random words choose, the first one a bucket, the second one a distance. -/
def parentOfWords (metaDegree node metanode buckets bucketWord distanceWord : Nat) :
    Result Nat := do
  let bucket ← Word.add (← Word.rem bucketWord buckets) 1
  let _ ← Word.powTwo bucket
  let largest := largestDistance metanode bucket
  let smallest := smallestDistance metanode bucket
  let count ← Word.add (← Word.sub largest smallest) 1
  let distance ← Word.add smallest (← Word.rem distanceWord count)
  let metaparent ← Word.sub metanode distance
  let mapped := (← Word.div metaparent metaDegree) % Word.halfLimit
  if mapped = node then Word.sub node 1 else return mapped

/-- The slots of a number of parents sampled from a stream of random words, after the slots already
sampled, which are held in reverse order. -/
def sampleOnto (metaDegree node metanode buckets : Nat) :
    Nat → ChaCha.Stream → List (Result Nat) → List (Result Nat)
  | 0, _, sampled => sampled.reverse
  | count + 1, stream, sampled =>
    let (bucketWord, stream) := stream.next
    let (distanceWord, stream) := stream.next
    let slot :=
      parentOfWords metaDegree node metanode buckets bucketWord.toNat distanceWord.toNat
    sampleOnto metaDegree node metanode buckets count stream (slot :: sampled)

/-- The slots of the sampled parents of a node above the first two, and of its predecessor. -/
def sampledSlots (g : BaseGraph) (node : Nat) : Result (List (Result Nat)) := do
  let metanode ← Word.mul node g.metaDegree
  let stream := ChaCha.Stream.ofKey (g.nodeKey node)
  return sampleOnto g.metaDegree node metanode (bucketCount metanode) g.metaDegree stream []
    ++ [Word.sub node 1]

/-- The slots of the parents of a node. The first two nodes have nothing to sample from; all their
parents are node zero. -/
def slotsOf (g : BaseGraph) (node : Nat) : Result (List (Result Nat)) :=
  if node < 2 then .ok (List.replicate g.degree (.ok 0)) else g.sampledSlots node

/-- Writes the parents of a node to the start of a buffer. -/
def fillParents (g : BaseGraph) (node : Nat) : OnBuffer (List Nat) Unit := fun buffer =>
  Buffer.fillWith (do
    Result.require (node < g.nodes) (.outOfBounds node g.nodes)
    Result.require (g.degree ≤ buffer.length) (.parentCount g.degree buffer.length)
    g.slotsOf node) buffer

/-- The number of bytes of a node of data for every node. -/
def dataSize (g : BaseGraph) : Nat := g.nodes * nodeSize

end BaseGraph

end Replication
