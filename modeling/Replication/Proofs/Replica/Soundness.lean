import Replication.Proofs.Merkle.Binding
import Replication.Proofs.Proof.StatedIndices
import Replication.Proofs.Replica.Partition
import Replication.Proofs.Replica.Setup

/-!
# Soundness against an honest commitment

Whoever knows only the commitment of a replication can have a partition accepted by no other
proofs than the prover's, unless an input that was hashed to verify them has the digest of a
different input that was hashed to replicate. The argument goes from the top down: the two roots,
the openings under them, the columns they open, and the labels read off the columns. Only the
index that a column states of itself is not bound.
-/

namespace Replication

/-! ## What is hashed -/

/-- The hash of a column with the given rows. -/
def Column.hashRows (rows : List Element) : Result Element := Column.hash ⟨0, rows⟩

theorem Column.hash_eq_hashRows (c : Column) : c.hash = hashRows c.rows := rfl

/-- The inputs of the hash functions of a computation: of the pair of roots, of the nodes of the
data tree, of the nodes of the column and replica trees, and of columns. -/
structure HashInputs where
  pairs : List (Element × Element)
  dataNodes : List (List Element)
  treeNodes : List (List Element)
  columns : List (List Element)

namespace HashInputs

/-- What is hashed to verify a partition. -/
def ofProofs (params : Params) (proofs : List ChallengeProof) : HashInputs where
  pairs := proofs.head?.toList.map fun p => (p.columnRoot, p.replicaRoot)
  dataNodes := proofs.flatMap fun p => p.dataOpening.hashed params.dataShape
  treeNodes := proofs.flatMap fun p =>
    (p.columns.all.map ColumnOpening.opening ++ [p.replicaOpening]).flatMap
      (Merkle.Opening.hashed params.treeShape)
  columns := proofs.flatMap fun p => p.columns.all.map fun o => o.column.rows

/-- What is hashed to replicate. -/
def ofWitness (params : Params) (w : Witness) : HashInputs where
  pairs := [(w.columnTree.root, w.replicaTree.root)]
  dataNodes := w.dataTree.hashed
  treeNodes := w.columnTree.hashed ++ w.replicaTree.hashed
  columns := (List.range params.graph.size).map w.layers.rows

section

variable {params : Params} {proofs : List ChallengeProof} {p : ChallengeProof} (hp : p ∈ proofs)

include hp

theorem mem_dataNodes : ∀ children ∈ p.dataOpening.hashed params.dataShape,
    children ∈ (ofProofs params proofs).dataNodes :=
  fun _ hchildren => List.mem_flatMap.mpr ⟨p, hp, hchildren⟩

/-- The column and replica openings of every proof are among the tree nodes that were hashed. -/
theorem mem_treeNodes {o : Merkle.Opening}
    (ho : o ∈ p.columns.all.map ColumnOpening.opening ++ [p.replicaOpening]) :
    ∀ children ∈ o.hashed params.treeShape, children ∈ (ofProofs params proofs).treeNodes :=
  fun _ hchildren => List.mem_flatMap.mpr ⟨p, hp, List.mem_flatMap.mpr ⟨o, ho, hchildren⟩⟩

theorem mem_treeNodes_of_column {o : ColumnOpening} (ho : o ∈ p.columns.all) :
    ∀ children ∈ o.opening.hashed params.treeShape,
      children ∈ (ofProofs params proofs).treeNodes :=
  mem_treeNodes hp (List.mem_append_left _ (List.mem_map_of_mem ho))

theorem mem_treeNodes_of_replica : ∀ children ∈ p.replicaOpening.hashed params.treeShape,
    children ∈ (ofProofs params proofs).treeNodes :=
  mem_treeNodes hp (List.mem_append_right _ List.mem_cons_self)

/-- The columns of every proof are among the columns that were hashed. -/
theorem mem_columns {o : ColumnOpening} (ho : o ∈ p.columns.all) :
    o.column.rows ∈ (ofProofs params proofs).columns :=
  List.mem_flatMap.mpr ⟨p, hp, List.mem_map_of_mem ho⟩

end

/-- For one of the hash functions an input among the checked ones has the digest of a different
input among those that were built from. -/
def Collide (params : Params) (checked built : HashInputs) : Prop :=
  Replication.Collide (fun pair => params.treeShape.family.pair pair.1 pair.2) checked.pairs
      built.pairs ∨
    Replication.Collide params.dataFamily.node checked.dataNodes built.dataNodes ∨
    Replication.Collide params.treeShape.family.node checked.treeNodes built.treeNodes ∨
    Replication.Collide Column.hashRows checked.columns built.columns

/-- Without a collision there is none among pairs, data nodes, tree nodes or columns. -/
theorem not_collide_iff {params : Params} {checked built : HashInputs} :
    ¬ Collide params checked built ↔
      ¬ Replication.Collide (fun pair => params.treeShape.family.pair pair.1 pair.2)
          checked.pairs built.pairs ∧
        ¬ Replication.Collide params.dataFamily.node checked.dataNodes built.dataNodes ∧
        ¬ Replication.Collide params.treeShape.family.node checked.treeNodes built.treeNodes ∧
        ¬ Replication.Collide Column.hashRows checked.columns built.columns := by
  rw [Collide, not_or, not_or, not_or]

end HashInputs

namespace Replica

variable {params : Params} {replicaId : Element} {nodes replica : List Element}
  {commitment : Commitment} {w : Witness} {statement : Statement} {challenge : Nat}
  {base expander : List Nat} {p : ChallengeProof}

/-! ## A single proof -/

/-- A proof that opens under the roots of a witness, with no collision of what is hashed. -/
structure Tied (params : Params) (w : Witness) (p : ChallengeProof) : Prop where
  columnRoot_eq : p.columnRoot = w.columnTree.root
  replicaRoot_eq : p.replicaRoot = w.replicaTree.root
  data : ¬ Collide params.dataFamily.node (p.dataOpening.hashed params.dataShape)
    w.dataTree.hashed
  column : ∀ o ∈ p.columns.all, ¬ Collide params.treeShape.family.node
    (o.opening.hashed params.treeShape) w.columnTree.hashed
  rows : ∀ o ∈ p.columns.all, ¬ Collide Column.hashRows [o.column.rows]
    ((List.range params.graph.size).map w.layers.rows)
  replica : ¬ Collide params.treeShape.family.node (p.replicaOpening.hashed params.treeShape)
    w.replicaTree.hashed

/-- An opened column has the rows of the node at which it is opened: the opened leaf is the hash
of that node's column. -/
theorem eraseIndex_eq {given : Option Merkle.Tree}
    (h : Replicated params replicaId given nodes commitment w replica)
    (hrows : Merkle.CountsRows params.treeShape.arity params.graph.size) {o : ColumnOpening}
    {node : Nat} (hnode : node < params.graph.size)
    (hopens : o.OpensAt params.treeShape node w.columnTree.root)
    (hrequire : ChallengeProof.requireColumn params.treeShape.arity params.graph.size
      params.plan.layers o = .ok ())
    (hno : ¬ Collide params.treeShape.family.node (o.opening.hashed params.treeShape)
      w.columnTree.hashed)
    (hnoRows : ¬ Collide Column.hashRows [o.column.rows]
      ((List.range params.graph.size).map w.layers.rows)) :
    o.eraseIndex = (w.columnOpening node).eraseIndex := by
  obtain ⟨hhash, hover⟩ := h.columnTree_over
  have hlt := hover.lt_length hnode
  obtain ⟨-, -, hrequire⟩ := ChallengeProof.requireColumn_eq_ok_iff.mp hrequire
  obtain ⟨hlevels, -⟩ := ChallengeProof.requireOpening_eq_ok_iff.mp hrequire
  have hopening : o.opening = w.columnTree.opening node :=
    hover.eq_opening hrows hnode hopens.verify_eq hopens.root_eq hlevels hopens.position_eq hno
  have hleaf := hopens.hash_eq
  rw [hopening, Merkle.Tree.leaf_opening _ hlt, Column.hash_eq_hashRows] at hleaf
  -- both columns hash to the leaf of the column tree at the node
  have hsame : o.column.rows = w.layers.rows node :=
    eq_of_not_collide hnoRows List.mem_cons_self
      (List.mem_map_of_mem (List.mem_range.mpr hnode)) hleaf (hhash node hlt)
  unfold ColumnOpening.eraseIndex
  rw [hsame, hopening]
  rfl

/-- Openings that each match the honest one but for the index match it as a list. -/
theorem map_eraseIndex_eq {shape : Merkle.Shape} {root : Element}
    {openings : List ColumnOpening} {positions : List Nat}
    (heach : ColumnOpenings.EachOpensAt shape root openings positions)
    (hone : ∀ o ∈ openings, ∀ node ∈ positions, o.OpensAt shape node root →
      o.eraseIndex = (w.columnOpening node).eraseIndex) :
    openings.map ColumnOpening.eraseIndex
      = (positions.map w.columnOpening).map ColumnOpening.eraseIndex := by
  rw [List.map_map]
  have hself : List.Forall₂ Eq positions positions := List.forall₂_eq_eq_eq ▸ rfl
  apply map_eq_map_of_forall₂ heach hself
  intro o ho node hnode position _ hopens heq
  cases heq
  exact hone o ho node hnode hopens

/-- All columns around the challenge have the rows of their nodes. -/
theorem eraseIndices_columns (h : Replicated params replicaId none nodes commitment w replica)
    (hrows : Merkle.CountsRows params.treeShape.arity params.graph.size)
    (hparents : params.graph.Parents challenge base expander)
    (hchallenge : challenge < params.graph.size) (hshaped : ChallengeProof.Shaped params p)
    (hopens : p.columns.OpenAround params.treeShape challenge base expander)
    (htied : Tied params w p) :
    p.columns.eraseIndices = (w.columns challenge base expander).eraseIndices := by
  have hroot : p.columns.root = w.columnTree.root := htied.columnRoot_eq
  -- what an opening holds is bound by the node it opens, its stated index aside
  have hone : ∀ o ∈ p.columns.all, ∀ node < params.graph.size,
      o.OpensAt params.treeShape node p.columns.root →
      o.eraseIndex = (w.columnOpening node).eraseIndex := by
    intro o ho node hnode hopen
    exact eraseIndex_eq h hrows hnode (hroot ▸ hopen) (hshaped.columns o ho)
      (htied.column o ho) (htied.rows o ho)
  have hchallenged := hopens.challenged
  rw [LayerGraph.mod_halfLimit hchallenge] at hchallenged
  have hbase := map_eraseIndex_eq (w := w) hopens.base_each (by
    intro o ho parent hparent hopen
    have hle := hparents.base_le parent hparent
    have hmem : o ∈ p.columns.all :=
      List.mem_cons_of_mem _ (List.mem_append_left _ ho)
    exact hone o hmem parent (by omega) hopen)
  have hexpander := map_eraseIndex_eq (w := w) hopens.expander_each (by
    intro o ho parent hparent hopen
    have hmem : o ∈ p.columns.all :=
      List.mem_cons_of_mem _ (List.mem_append_right _ ho)
    exact hone o hmem parent (hparents.expander_lt parent hparent) hopen)
  unfold ColumnOpenings.eraseIndices
  rw [hone _ List.mem_cons_self challenge hchallenge hchallenged, hbase, hexpander]
  rfl

/-- With the columns, the labels of the parents are bound, and so is every label opening. -/
theorem eq_labelOpening {given : Option Merkle.Tree}
    (h : Replicated params replicaId given nodes commitment w replica)
    (hcolumns : p.columns.eraseIndices = (w.columns challenge base expander).eraseIndices)
    {layer : Nat} (htwo : 2 ≤ layer) (hle : layer ≤ params.plan.layers) {o : LabelOpening}
    (ho : ChallengeProof.ParentsOpened p.columns challenge layer o) :
    o = w.labelOpening challenge base expander layer := by
  have hparents := ho.parents_eq
  rw [← ColumnOpenings.parentLabels_eraseIndices, hcolumns,
    ColumnOpenings.parentLabels_eraseIndices, parentLabels_columns h htwo hle] at hparents
  injection hparents with hparents
  have hlayer := ho.layer_eq_toUInt32
  have hnode := ho.node_eq_toUInt64
  cases o
  subst hlayer hnode hparents
  rfl

/-- An accepted proof that is tied to the witness is the prover's, up to the indices that columns
state of themselves. -/
theorem eraseIndices_eq_challengeProof
    (h : Replicated params replicaId none nodes commitment w replica)
    (hrows : Merkle.CountsRows params.treeShape.arity params.graph.size)
    (hparents : params.graph.Parents challenge base expander)
    (hchallenge : challenge < params.graph.size) (hshaped : ChallengeProof.Shaped params p)
    (hanswers : ChallengeProof.Answers params replicaId commitment challenge p)
    (htied : Tied params w p) :
    p.eraseIndices
      = (w.challengeProof params.plan.layers challenge base expander).eraseIndices := by
  obtain ⟨htwo, -⟩ := layers_bounds h.layers_mem
  obtain ⟨-, hdataOver⟩ := h.dataTree_over
  obtain ⟨-, hreplicaOver⟩ := h.replicaTree_over
  obtain ⟨hdataLevels, -⟩ := ChallengeProof.requireOpening_eq_ok_iff.mp hshaped.dataOpening
  obtain ⟨hreplicaLevels, -⟩ :=
    ChallengeProof.requireOpening_eq_ok_iff.mp hshaped.replicaOpening
  have hcolumns := eraseIndices_columns h hrows hparents hchallenge hshaped
    (hanswers.columns base expander hparents) htied
  have hdata : p.dataOpening = w.dataTree.opening challenge :=
    hdataOver.eq_opening (hdataOver.countsRows (dataShape_arity_mem params)) hchallenge
      hanswers.data_verify (hanswers.data_root.trans h.data_eq) hdataLevels
      hanswers.data_position htied.data
  have hreplica : p.replicaOpening = w.replicaTree.opening challenge :=
    hreplicaOver.eq_opening hrows hchallenge hanswers.replica_verify htied.replicaRoot_eq
      hreplicaLevels hanswers.replica_position htied.replica
  -- label openings are listed from the second layer on
  have hlabels : p.labels
      = (w.challengeProof params.plan.layers challenge base expander).labels := by
    have hcount := hshaped.length_labels
    apply List.ext_getElem
    · rw [Witness.length_labels_challengeProof]
      omega
    · intro i hi hi'
      rw [Witness.getElem_labels_challengeProof hi']
      exact eq_labelOpening h hcolumns (by omega) (by omega) (hanswers.labels i hi).toParentsOpened
  have hkey := eq_labelOpening h hcolumns htwo (Nat.le_refl _) hanswers.key
  unfold ChallengeProof.eraseIndices
  rw [hcolumns, hdata, hreplica, hlabels, hkey]
  rfl

/-! ## A whole partition -/

/-- An accepted proof has the prover's parts at its challenge, once it is tied to the witness. So
the prover's is accepted too, and returned also if the prover verifies it first. -/
theorem eraseIndices_eq_of_verify (settings : Settings)
    (h : Replicated params replicaId none nodes commitment w replica)
    (hrows : Merkle.CountsRows params.treeShape.arity params.graph.size)
    (hid : statement.replicaId = replicaId)
    (hcommitment : statement.commitment = some commitment) (hzero : challenge ≠ 0)
    (hverify : p.verify params statement challenge = .ok true) (htied : Tied params w p) :
    ∃ honest, proveChallenge settings params statement w challenge = .ok honest ∧
      p.eraseIndices = honest.eraseIndices := by
  obtain ⟨htwo, -⟩ := layers_bounds h.layers_mem
  obtain ⟨hchallenge, commitment', hcommitment', hshaped, hanswers⟩ :=
    ChallengeProof.verify_eq_ok_true_iff.mp hverify
  rw [hcommitment] at hcommitment'
  cases hcommitment'
  rw [hid] at hanswers
  obtain ⟨base, expander, hparents⟩ := params.graph.exists_combined hchallenge
  have heq := eraseIndices_eq_challengeProof h hrows hparents hchallenge hshaped hanswers htied
  have hvalid := ChallengeProof.verify_of_eraseIndices_eq heq.symm hverify
  exact ⟨_, proveChallenge_of_verify (assembleProof_eq h hparents hchallenge hzero htwo) hvalid,
    heq⟩

/-- Without a collision all proofs of an accepted partition are tied to the witness. -/
theorem tied_of_not_collide (h : Replicated params replicaId none nodes commitment w replica)
    {proofs : List ChallengeProof} {first : ChallengeProof} {challenges : List Nat}
    (hfirst : proofs.head? = some first)
    (haccepted : Accepted params statement commitment first proofs challenges)
    (hno : ¬ HashInputs.Collide params (.ofProofs params proofs) (.ofWitness params w)) :
    ∀ p ∈ proofs, Tied params w p := by
  obtain ⟨hpairs, hdata, htree, hcolumns⟩ := HashInputs.not_collide_iff.mp hno
  -- the commitment hashes only one pair of roots
  have hroots : (first.columnRoot, first.replicaRoot)
      = (w.columnTree.root, w.replicaTree.root) := by
    refine eq_of_not_collide hpairs ?_ List.mem_cons_self haccepted.pair_eq h.replica_eq
    show _ ∈ proofs.head?.toList.map _
    rw [hfirst]
    exact List.mem_cons_self
  injection hroots with hcolumnRoot hreplicaRoot
  have hshared := ((List.forall₂_and_left _ _).mp haccepted.each).1
  intro p hp
  refine ⟨(hshared p hp).1.trans hcolumnRoot, (hshared p hp).2.trans hreplicaRoot, ?_, ?_, ?_, ?_⟩
  · exact not_collide_mono hdata (HashInputs.mem_dataNodes hp) fun _ hchildren => hchildren
  · intro o ho
    exact not_collide_mono htree (HashInputs.mem_treeNodes_of_column hp ho)
      fun _ hchildren => List.mem_append_left _ hchildren
  · intro o ho
    exact not_collide_mono hcolumns (List.forall_mem_singleton.mpr (HashInputs.mem_columns hp ho))
      fun _ hrows => hrows
  · exact not_collide_mono htree (HashInputs.mem_treeNodes_of_replica hp)
      fun _ hchildren => List.mem_append_right _ hchildren

/-- A partition that is accepted under the commitment of a replication is the prover's, up to the
indices that columns state of themselves and whatever the prover's settings are, or an input hashed
to verify it has the digest of a different input hashed to replicate. -/
theorem collide_or_eraseIndices_eq (settings : Settings) {params : Params} {height : Nat}
    (hnodes : params.graph.size = params.treeShape.arity ^ height)
    (hrows : Merkle.rowCount params.treeShape.arity (params.treeShape.arity ^ height)
      = .ok (height + 1)) {replicaId : Element} {data result : Bytes} {commitment : Commitment}
    {w : Witness}
    (hreplicate : replicate params replicaId none data = (.ok (commitment, w), result))
    {seed : Element} {partition : Option Nat} {proofs : List ChallengeProof}
    (hverify : verify params ⟨replicaId, seed, some commitment, partition⟩ proofs = .ok true) :
    HashInputs.Collide params (.ofProofs params proofs) (.ofWitness params w) ∨
      ∃ honest, prove settings params ⟨replicaId, seed, some commitment, partition⟩ w = .ok honest ∧
        proofs.map ChallengeProof.eraseIndices = honest.map ChallengeProof.eraseIndices := by
  obtain ⟨nodes, replica, -, -, h⟩ := replicate_eq_ok_iff.mp hreplicate
  obtain ⟨commitment', first, challenges, hcommitment, hfirst, haccepted⟩ :=
    verify_eq_ok_true_iff.mp hverify
  cases hcommitment
  by_cases hcollide : HashInputs.Collide params (.ofProofs params proofs) (.ofWitness params w)
  · exact Or.inl hcollide
  refine Or.inr ?_
  have hcounts : Merkle.CountsRows params.treeShape.arity params.graph.size :=
    ⟨height, hnodes, hnodes ▸ hrows⟩
  have htied := tied_of_not_collide h hfirst haccepted hcollide
  obtain ⟨-, hbounds⟩ := bounds_of_challengesOf haccepted.challenges_eq
  have hverified := ((List.forall₂_and_left _ _).mp haccepted.each).2
  have hlen := hverified.length_eq
  -- the proof at a place is the prover's at the challenge there
  have hone : ∀ i (hproof : i < proofs.length) (hchallenge : i < challenges.length),
      ∃ honest, proveChallenge settings params ⟨replicaId, seed, some commitment, partition⟩ w
          challenges[i] = .ok honest ∧
        proofs[i].eraseIndices = honest.eraseIndices := by
    intro i hproof hchallenge
    exact eraseIndices_eq_of_verify settings h hcounts rfl rfl
      (hbounds _ (List.getElem_mem hchallenge)).1 (hverified.get hproof hchallenge)
      (htied _ (List.getElem_mem hproof))
  have hexists : ∃ honest, challenges.mapM (proveChallenge settings params
      ⟨replicaId, seed, some commitment, partition⟩ w) = .ok honest := by
    apply Result.exists_mapM
    intro challenge hmem
    obtain ⟨i, hi, rfl⟩ := List.getElem_of_mem hmem
    obtain ⟨q, hq, -⟩ := hone i (by omega) hi
    exact ⟨q, hq⟩
  obtain ⟨honest, hhonest⟩ := hexists
  refine ⟨honest, (prove_eq_ok_iff h rfl).mpr ⟨challenges, haccepted.challenges_eq, hhonest⟩, ?_⟩
  have hlenHonest := Result.length_of_mapM hhonest
  apply List.ext_getElem
  · rw [List.length_map, List.length_map]
    omega
  · intro i hi hi'
    rw [List.length_map] at hi hi'
    obtain ⟨q, hq, heq⟩ := hone i hi (by omega)
    have hget := Result.getElem_of_mapM hhonest i (by omega) hi'
    rw [hq] at hget
    injection hget with hget
    rw [List.getElem_map, List.getElem_map, heq, hget]

/-- An accepted partition of the small sector is the prover's, or something collided. -/
theorem sample_collide_or_eraseIndices_eq : ∃ params commitment w result proofs,
    Params.ofSetup sampleSettings sampleShape .sha256 sampleSetup = .ok params ∧
      replicate params .zero none sampleData = (.ok (commitment, w), result) ∧
      verify params ⟨.zero, .zero, some commitment, some 1⟩ proofs = .ok true ∧
      (HashInputs.Collide params (.ofProofs params proofs) (.ofWitness params w) ∨
        ∃ honest, prove sampleSettings params ⟨.zero, .zero, some commitment, some 1⟩ w
            = .ok honest ∧
          proofs.map ChallengeProof.eraseIndices = honest.map ChallengeProof.eraseIndices) := by
  obtain ⟨params, nodes, commitment, w, replica, hparams, hmade, hconcat, h⟩ :=
    exists_sampleReplicated
  have hreplicate := replicate_eq_ok_iff.mpr ⟨nodes, replica, hconcat, rfl, h⟩
  have harity := hmade.arity_mem (show sampleShape.Supported by decide)
  have hnodes : params.graph.size = params.treeShape.arity ^ 2 := by
    rw [hmade.size_eq, hmade.treeShape_eq]
    decide
  have hrows := Merkle.rowCount_pow harity (hnodes ▸ params.graph.size_lt)
  have hcount : 1 ≤ params.plan.perPartition := by
    rw [hmade.plan_eq]
    decide
  have hordinals : params.plan.perPartition * (1 + 1) ≤ Word.halfLimit := by
    rw [hmade.plan_eq]
    decide
  obtain ⟨proofs, -, -, -, -, -, hverify⟩ := exists_prove_accepted sampleSettings
    ⟨.zero, .zero, some commitment, some 1⟩ h harity hcount rfl rfl hordinals
  exact ⟨params, commitment, w, _, proofs, hparams, hreplicate, hverify,
    collide_or_eraseIndices_eq sampleSettings hnodes hrows hreplicate hverify⟩

end Replica

end Replication
