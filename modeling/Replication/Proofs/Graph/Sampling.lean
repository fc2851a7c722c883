import Replication.Graph.Base
import Replication.Proofs.Logarithm
import Replication.Proofs.Outcome

/-!
# Sampled parents come before their node

Sampling the parents of a node always has a value: buckets are never empty, a distance is at least
two and never leads below the first metanode. Each parent is smaller than the node, for the first
two nodes as far as there is a smaller one, and the last one is the predecessor
(`exists_parentList`).
-/

namespace Replication.BaseGraph

/-! ## Distances -/

/-- From metanode two on there is a bucket to draw from. -/
theorem bucketCount_pos {metanode : Nat} (h : 2 ≤ metanode) : 0 < bucketCount metanode := by
  have hlog : 1 ≤ metanode.log2 := (Nat.le_log2 (by omega)).mpr h
  exact hlog.trans (Logarithm.log2_le_ceilLog2 (by omega))

/-- There are never more buckets than bits in the largest metanode. -/
theorem bucketCount_le {metanode : Nat} (h : metanode ≤ metanodeLimit) :
    bucketCount metanode ≤ 54 :=
  Logarithm.ceilLog2_le h

theorem two_le_largestDistance {metanode bucket : Nat} (hmetanode : 2 ≤ metanode)
    (hbucket : 1 ≤ bucket) : 2 ≤ largestDistance metanode bucket := by
  have hpow : 2 ^ 1 ≤ 2 ^ bucket := Nat.pow_le_pow_right (by decide) hbucket
  unfold largestDistance
  omega

/-- No bucket is empty. -/
theorem smallestDistance_le {metanode bucket : Nat} (h : 2 ≤ largestDistance metanode bucket) :
    smallestDistance metanode bucket ≤ largestDistance metanode bucket := by
  unfold smallestDistance
  omega

/-- The distance that a random word chooses from a bucket. -/
def distanceOf (metanode bucket distanceWord : Nat) : Nat :=
  smallestDistance metanode bucket
    + distanceWord % (largestDistance metanode bucket - smallestDistance metanode bucket + 1)

theorem two_le_distanceOf (metanode bucket distanceWord : Nat) :
    2 ≤ distanceOf metanode bucket distanceWord :=
  Nat.le_trans (Nat.le_max_left _ _) (Nat.le_add_right _ _)

/-- No distance leads below the first metanode. -/
theorem distanceOf_le {metanode bucket : Nat} (hmetanode : 2 ≤ metanode) (hbucket : 1 ≤ bucket)
    (distanceWord : Nat) : distanceOf metanode bucket distanceWord ≤ metanode := by
  have hsmallest := smallestDistance_le (two_le_largestDistance hmetanode hbucket)
  have hlargest : largestDistance metanode bucket ≤ metanode := Nat.min_le_left _ _
  have hmod := Nat.mod_lt distanceWord (y :=
    largestDistance metanode bucket - smallestDistance metanode bucket + 1) (Nat.succ_pos _)
  unfold distanceOf
  omega

/-- The metaparent lies below the metanode, so it belongs to an earlier node. -/
theorem metaparent_lt {metaDegree node distance : Nat} (hmeta : 1 ≤ metaDegree)
    (htwo : 2 ≤ distance) (hle : distance ≤ node * metaDegree) :
    (node * metaDegree - distance) / metaDegree < node := by
  rw [Nat.div_lt_iff_lt_mul hmeta]
  omega

/-- Whatever the random words, they choose a parent, and it is smaller than the node. -/
theorem exists_parentOfWords {metaDegree node : Nat} (hnode : 2 ≤ node)
    (hnodeLt : node < Word.halfLimit) (hmeta : 1 ≤ metaDegree)
    (hlimit : node * metaDegree ≤ metanodeLimit) (bucketWord distanceWord : Nat) :
    ∃ parent, parentOfWords metaDegree node (node * metaDegree) (bucketCount (node * metaDegree))
      bucketWord distanceWord = .ok parent ∧ parent < node := by
  have hmetanode : 2 ≤ node * metaDegree := Nat.le_trans hnode (Nat.le_mul_of_pos_right _ hmeta)
  have hword : metanodeLimit + 64 < Word.limit := by decide
  have hbuckets := bucketCount_pos hmetanode
  have hbucketsLe := bucketCount_le hlimit
  have hbucketMod := Nat.mod_lt bucketWord hbuckets
  generalize hb : bucketWord % bucketCount (node * metaDegree) + 1 = bucket
  have hbucket : 1 ≤ bucket ∧ bucket < 64 := by omega
  have hsmallest := smallestDistance_le (two_le_largestDistance hmetanode hbucket.1)
  have hlargest : largestDistance (node * metaDegree) bucket ≤ node * metaDegree :=
    Nat.min_le_left _ _
  have hcount : largestDistance (node * metaDegree) bucket
      - smallestDistance (node * metaDegree) bucket + 1 < Word.limit := by omega
  have hdistance := distanceOf_le hmetanode hbucket.1 distanceWord
  have hparent := metaparent_lt hmeta (two_le_distanceOf _ bucket distanceWord) hdistance
  refine ⟨_, ?_, hparent⟩
  -- no step leaves the range of words, and the parent is not the node itself
  unfold parentOfWords
  rw [Word.rem_of_pos hbuckets, Result.ok_bind, Word.add_of_lt (by omega), Result.ok_bind, hb,
    Word.powTwo_of_lt hbucket.2, Result.ok_bind]
  simp only
  rw [Word.sub_of_le hsmallest, Result.ok_bind, Word.add_of_lt hcount, Result.ok_bind,
    Word.rem_of_pos (Nat.succ_pos _), Result.ok_bind,
    Word.add_of_lt (Nat.lt_of_le_of_lt hdistance (by omega)), Result.ok_bind, ← distanceOf,
    Word.sub_of_le hdistance, Result.ok_bind, Word.div_of_pos hmeta, Result.ok_bind,
    Nat.mod_eq_of_lt (Nat.lt_trans hparent hnodeLt), if_neg (Nat.ne_of_lt hparent)]
  rfl

/-! ## Runs of draws -/

/-- If every draw chooses a parent with a property, every slot of a run of draws has a value with
the property. -/
theorem exists_sampleOnto {metaDegree node metanode buckets : Nat} {p : Nat → Prop}
    (hdraw : ∀ bucketWord distanceWord, ∃ parent,
      parentOfWords metaDegree node metanode buckets bucketWord distanceWord = .ok parent ∧
        p parent)
    (count : Nat) (stream : ChaCha.Stream) (sampled : List (Result Nat)) :
    ∃ parents : List Nat, sampleOnto metaDegree node metanode buckets count stream sampled
        = sampled.reverse ++ parents.map .ok ∧
      parents.length = count ∧ ∀ parent ∈ parents, p parent := by
  induction count generalizing stream sampled with
  | zero => exact ⟨[], (List.append_nil _).symm, rfl, by simp⟩
  | succ count ih =>
    obtain ⟨parent, hparent, hp⟩ :=
      hdraw stream.next.1.toNat stream.next.2.next.1.toNat
    -- the run goes on from the state of the stream behind the two words
    obtain ⟨parents, hparents, hlen, hall⟩ := ih stream.next.2.next.2 (.ok parent :: sampled)
    refine ⟨parent :: parents, ?_, ?_, List.forall_mem_cons.mpr ⟨hp, hall⟩⟩
    · show sampleOnto metaDegree node metanode buckets count stream.next.2.next.2
        (parentOfWords metaDegree node metanode buckets stream.next.1.toNat
          stream.next.2.next.1.toNat :: sampled) = _
      rw [hparent, hparents, List.reverse_cons, List.append_assoc]
      rfl
    · rw [List.length_cons, hlen]

/-! ## The parents of a node -/

/-- A node stands for at least one metanode. -/
theorem metaDegree_pos (g : BaseGraph) : 0 < g.metaDegree := by
  have hdegree := g.two_le_degree
  unfold metaDegree
  omega

theorem metaDegree_succ (g : BaseGraph) : g.metaDegree + 1 = g.degree := by
  have hdegree := g.two_le_degree
  unfold metaDegree
  omega

/-- From node two on a node's first metanode is at least two. -/
theorem two_le_metanode (g : BaseGraph) {node : Nat} (htwo : 2 ≤ node) :
    2 ≤ node * g.metaDegree :=
  Nat.le_trans htwo (Nat.le_mul_of_pos_right _ g.metaDegree_pos)

/-- The metanodes of all nodes are within the limit. -/
theorem metanode_le (g : BaseGraph) {node : Nat} (hnode : node < g.nodes) :
    node * g.metaDegree ≤ metanodeLimit :=
  Nat.le_trans (Nat.mul_le_mul_right _ (Nat.le_of_lt hnode)) g.metanodes_le

/-- A node above the first two has one sampled parent less than the degree says, all before it, and
then its predecessor. -/
theorem exists_sampledSlots (g : BaseGraph) {node : Nat} (htwo : 2 ≤ node)
    (hnode : node < g.nodes) :
    ∃ sampled : List Nat, g.sampledSlots node = .ok ((sampled ++ [node - 1]).map .ok) ∧
      sampled.length = g.metaDegree ∧ ∀ parent ∈ sampled, parent < node := by
  have hlimit := g.metanode_le hnode
  have hword : metanodeLimit < Word.limit := by decide
  have hdraw := exists_parentOfWords htwo (hnode.trans g.nodes_lt) g.metaDegree_pos hlimit
  obtain ⟨sampled, hsampled, hlen, hlt⟩ :=
    exists_sampleOnto hdraw g.metaDegree (.ofKey (g.nodeKey node)) []
  refine ⟨sampled, ?_, hlen, hlt⟩
  unfold sampledSlots
  rw [Word.mul_of_lt (by omega), Result.ok_bind]
  simp only
  rw [hsampled, Word.sub_of_le (by omega), List.map_append]
  rfl

/-- The parents of the first two nodes are node zero. The parents of any other node come before it,
the immediate predecessor last. -/
structure ParentList (node degree : Nat) (parents : List Nat) : Prop where
  length_eq : parents.length = degree
  eq_zero : node < 2 → ∀ parent ∈ parents, parent = 0
  lt : 2 ≤ node → ∀ parent ∈ parents, parent < node
  predecessor_last : 2 ≤ node → parents[degree - 1]? = some (node - 1)

/-- Every slot of a node of the graph gets its parent: no draw fails. -/
theorem exists_parentList (g : BaseGraph) {node : Nat} (hnode : node < g.nodes) :
    ∃ parents : List Nat, g.slotsOf node = .ok (parents.map .ok) ∧
      ParentList node g.degree parents := by
  unfold slotsOf
  by_cases hfirst : node < 2
  -- the first two nodes have nothing to sample from
  · rw [if_pos hfirst]
    refine ⟨List.replicate g.degree 0, by rw [List.map_replicate], List.length_replicate, ?_, ?_,
      ?_⟩
    · intro _ parent hparent
      exact List.eq_of_mem_replicate hparent
    · intro htwo
      omega
    · intro htwo
      omega
  · obtain ⟨sampled, hsampled, hlen, hlt⟩ := g.exists_sampledSlots (by omega) hnode
    rw [if_neg hfirst]
    refine ⟨_, hsampled, ?_, ?_, ?_, ?_⟩
    · rw [List.length_append, hlen, List.length_singleton, metaDegree_succ]
    · intro htwo
      omega
    · intro htwo parent hparent
      rcases List.mem_append.mp hparent with h | h
      · exact hlt parent h
      · rw [List.mem_singleton.mp h]
        omega
    · intro _
      rw [← metaDegree_succ, Nat.add_sub_cancel, ← hlen]
      exact List.getElem?_concat_length

/-- No parent of a node lies behind its predecessor. -/
theorem ParentList.le {node degree : Nat} {parents : List Nat}
    (h : ParentList node degree parents) : ∀ parent ∈ parents, parent ≤ node - 1 := by
  intro parent hparent
  by_cases hfirst : node < 2
  · rw [h.eq_zero hfirst parent hparent]
    exact Nat.zero_le _
  · have hlt := h.lt (by omega) parent hparent
    omega

end Replication.BaseGraph
