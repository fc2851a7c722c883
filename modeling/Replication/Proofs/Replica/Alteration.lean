import Replication.Proofs.Merkle.Position
import Replication.Proofs.Replica.Soundness

/-!
# What can be altered of an accepted proof

An accepted proof states the positions it is about several times: in the paths of its openings, in
the nodes of its label openings, and in the indices of its columns. The paths and the nodes are
compared with the challenge and its parents. The indices are compared with nothing: whatever
columns state there, the proof stays accepted. Everything else is bound. With the roots as they
are, or with others that give the same commitment, no other part can be altered unless two inputs
hashed to verify the two proofs collide; and the roots alone cannot be altered at all.
-/

namespace Replication

/-! ## The indices that columns state go into no hash -/

/-- The same is hashed to verify a proof, whatever its columns state. -/
theorem HashInputs.ofProofs_eq_of_eraseIndices_eq (params : Params) {p q : ChallengeProof}
    (heq : q.eraseIndices = p.eraseIndices) :
    ofProofs params [q] = ofProofs params [p] := by
  have herase : ∀ p : ChallengeProof, ofProofs params [p.eraseIndices] = ofProofs params [p] := by
    intro p
    unfold ofProofs
    simp only [ChallengeProof.eraseIndices, ColumnOpenings.all_eraseIndices, List.flatMap_singleton,
      List.map_map]
    rfl
  rw [← herase q, heq, herase p]

/-! ## Everything else is bound by the roots -/

namespace ChallengeProof

/-- Openings that pass the same check have paths of one length. -/
theorem length_path_eq {arity leaves : Nat} {o o' : Merkle.Opening}
    (h : requireOpening arity leaves o = .ok ()) (h' : requireOpening arity leaves o' = .ok ()) :
    o.path.length = o'.path.length := by
  obtain ⟨hlevels, -⟩ := requireOpening_eq_ok_iff.mp h
  obtain ⟨hlevels', -⟩ := requireOpening_eq_ok_iff.mp h'
  rw [Merkle.Opening.requireLevels_eq_ok_iff] at hlevels hlevels'
  exact Except.ok.inj (hlevels.symm.trans hlevels')

theorem isCanonical_root {arity leaves : Nat} {o : Merkle.Opening}
    (h : requireOpening arity leaves o = .ok ()) : o.root.IsCanonical := by
  obtain ⟨-, helements⟩ := requireOpening_eq_ok_iff.mp h
  exact (Merkle.Opening.requireElements_eq_ok_iff.mp helements).2.2

end ChallengeProof

/-- Two columns that are opened at one position under one root have the same rows and openings. -/
theorem ColumnOpening.OpensAt.eraseIndex_eq {shape : Merkle.Shape} {position leaves layers : Nat}
    {root : Element} {o o' : ColumnOpening} (h : o.OpensAt shape position root)
    (h' : o'.OpensAt shape position root) (hposition : position < Word.limit - 1)
    (hrequire : ChallengeProof.requireColumn shape.arity leaves layers o = .ok ())
    (hrequire' : ChallengeProof.requireColumn shape.arity leaves layers o' = .ok ())
    (hno : ¬ Collide shape.family.node (o.opening.hashed shape) (o'.opening.hashed shape))
    (hnoRows : ¬ Collide Column.hashRows [o.column.rows] [o'.column.rows]) :
    o.eraseIndex = o'.eraseIndex := by
  obtain ⟨-, -, hopening⟩ := ChallengeProof.requireColumn_eq_ok_iff.mp hrequire
  obtain ⟨-, -, hopening'⟩ := ChallengeProof.requireColumn_eq_ok_iff.mp hrequire'
  have hsame : o.opening = o'.opening :=
    Merkle.Opening.eq_of_verify h.verify_eq h'.verify_eq (h.root_eq.trans h'.root_eq.symm)
      (ChallengeProof.length_path_eq hopening hopening') hposition h.position_eq h'.position_eq hno
  -- with the same opening both columns hash to the same leaf
  have hrows : o.column.rows = o'.column.rows :=
    eq_of_not_collide hnoRows List.mem_cons_self List.mem_cons_self h.hash_eq
      (hsame ▸ h'.hash_eq)
  unfold ColumnOpening.eraseIndex
  rw [hrows, hsame]

/-- The paths lead to the positions. -/
theorem ColumnOpenings.EachOpensAt.map_position_eq {shape : Merkle.Shape} {root : Element}
    {openings : List ColumnOpening} {positions : List Nat}
    (h : EachOpensAt shape root openings positions) :
    openings.map (fun o => o.opening.position shape.arity) = positions := by
  unfold EachOpensAt at h
  induction h with
  | nil => rfl
  | cons hhead _ ih => rw [List.map_cons, hhead.position_eq, ih]

namespace ChallengeProof

/-- A label opening is given by the layer, the node, and the labels in the opened columns. -/
theorem ParentsOpened.eq {columns columns' : ColumnOpenings} {challenge layer : Nat}
    {o o' : LabelOpening} (h : ParentsOpened columns challenge layer o)
    (h' : ParentsOpened columns' challenge layer o')
    (hcolumns : columns.eraseIndices = columns'.eraseIndices) : o = o' := by
  have hparents : columns.parentLabels layer = columns'.parentLabels layer := by
    rw [← ColumnOpenings.parentLabels_eraseIndices, hcolumns,
      ColumnOpenings.parentLabels_eraseIndices]
  have hparents' : o.parents = o'.parents :=
    Except.ok.inj (h.parents_eq.symm.trans (hparents.trans h'.parents_eq))
  have hlayer := h.layer_eq_toUInt32.trans h'.layer_eq_toUInt32.symm
  have hnode := h.node_eq_toUInt64.trans h'.node_eq_toUInt64.symm
  cases o
  cases o'
  cases hparents'
  cases hlayer
  cases hnode
  rfl

section

variable {params : Params} {replicaId : Element} {commitment : Commitment} {challenge : Nat}
  {p q : ChallengeProof} (hchallenge : challenge < params.graph.size)
  (hshaped : Shaped params p) (hanswers : Answers params replicaId commitment challenge p)
  (hshaped' : Shaped params q) (hanswers' : Answers params replicaId commitment challenge q)
  (hno : ¬ HashInputs.Collide params (.ofProofs params [q]) (.ofProofs params [p]))

include hchallenge hshaped hanswers hshaped' hanswers' hno

/-- Two accepted proofs of one challenge under the same column root open the same columns up to
their stated indices, unless what is hashed to verify them collides. -/
theorem eraseIndices_columns_eq (hroot : q.columnRoot = p.columnRoot) :
    q.columns.eraseIndices = p.columns.eraseIndices := by
  obtain ⟨-, -, htree, hrows⟩ := HashInputs.not_collide_iff.mp hno
  obtain ⟨base, expander, hparents⟩ := params.graph.exists_combined hchallenge
  have hopens := hanswers.columns base expander hparents
  have hopens' := hanswers'.columns base expander hparents
  have hroot : q.columns.root = p.columns.root := hroot
  have hlimit : Word.halfLimit < Word.limit - 1 := by decide
  have hsize := params.graph.size_lt
  -- two openings of one node under one root hold the same, their stated indices aside
  have hone : ∀ o ∈ q.columns.all, ∀ o' ∈ p.columns.all, ∀ node < params.graph.size,
      o.OpensAt params.treeShape node p.columns.root →
        o'.OpensAt params.treeShape node p.columns.root → o.eraseIndex = o'.eraseIndex := by
    intro o ho o' ho' node hnode hopen hopen'
    have hq := List.mem_singleton_self q
    have hp := List.mem_singleton_self p
    exact hopen.eraseIndex_eq hopen' (by omega) (hshaped'.columns o ho) (hshaped.columns o' ho')
      (not_collide_mono htree (HashInputs.mem_treeNodes_of_column hq ho)
        (HashInputs.mem_treeNodes_of_column hp ho'))
      (not_collide_mono hrows (List.forall_mem_singleton.mpr (HashInputs.mem_columns hq ho))
        (List.forall_mem_singleton.mpr (HashInputs.mem_columns hp ho')))
  have hchallenged := hopens.challenged
  have hchallenged' := hroot ▸ hopens'.challenged
  rw [LayerGraph.mod_halfLimit hchallenge] at hchallenged hchallenged'
  have hsame := hone _ List.mem_cons_self _ List.mem_cons_self challenge hchallenge hchallenged'
    hchallenged
  have hbase := map_eq_map_of_forall₂ (hroot ▸ hopens'.base_each) hopens.base_each (by
    intro o ho o' ho' parent hparent
    have hle := hparents.base_le parent hparent
    exact hone o (List.mem_cons_of_mem _ (List.mem_append_left _ ho)) o'
      (List.mem_cons_of_mem _ (List.mem_append_left _ ho')) parent (by omega))
  have hexpander := map_eq_map_of_forall₂ (hroot ▸ hopens'.expander_each) hopens.expander_each (by
    intro o ho o' ho' parent hparent
    exact hone o (List.mem_cons_of_mem _ (List.mem_append_right _ ho)) o'
      (List.mem_cons_of_mem _ (List.mem_append_right _ ho')) parent
      (hparents.expander_lt parent hparent))
  unfold ColumnOpenings.eraseIndices
  rw [hsame, hbase, hexpander]

/-- Two accepted proofs of one challenge under the same roots are the same up to the indices that
columns state, unless what is hashed to verify them collides. -/
theorem eraseIndices_eq_of_roots_eq (hcolumnRoot : q.columnRoot = p.columnRoot)
    (hreplicaRoot : q.replicaRoot = p.replicaRoot) : q.eraseIndices = p.eraseIndices := by
  have hcolumns := eraseIndices_columns_eq hchallenge hshaped hanswers hshaped' hanswers' hno
    hcolumnRoot
  obtain ⟨-, hdataNo, htreeNo, -⟩ := HashInputs.not_collide_iff.mp hno
  have hq := List.mem_singleton_self q
  have hp := List.mem_singleton_self p
  have hlimit : Word.halfLimit < Word.limit - 1 := by decide
  have hsize := params.graph.size_lt
  have hdata : q.dataOpening = p.dataOpening :=
    Merkle.Opening.eq_of_verify hanswers'.data_verify hanswers.data_verify
      (hanswers'.data_root.trans hanswers.data_root.symm)
      (length_path_eq hshaped'.dataOpening hshaped.dataOpening) (by omega)
      hanswers'.data_position hanswers.data_position
      (not_collide_mono hdataNo (HashInputs.mem_dataNodes hq) (HashInputs.mem_dataNodes hp))
  have hreplica : q.replicaOpening = p.replicaOpening :=
    Merkle.Opening.eq_of_verify hanswers'.replica_verify hanswers.replica_verify hreplicaRoot
      (length_path_eq hshaped'.replicaOpening hshaped.replicaOpening) (by omega)
      hanswers'.replica_position hanswers.replica_position
      (not_collide_mono htreeNo (HashInputs.mem_treeNodes_of_replica hq)
        (HashInputs.mem_treeNodes_of_replica hp))
  have hlabels : q.labels = p.labels := by
    have hcount := hshaped.length_labels
    have hcount' := hshaped'.length_labels
    apply List.ext_getElem
    · omega
    · intro i hi hi'
      exact (hanswers'.labels i hi).toParentsOpened.eq (hanswers.labels i hi').toParentsOpened
        hcolumns
  have hkey : q.key = p.key := hanswers'.key.eq hanswers.key hcolumns
  unfold eraseIndices
  rw [hcolumns, hdata, hreplica, hlabels, hkey]

end

end ChallengeProof

/-! ## Roots are recomputed -/

/-- The column opening with the root of its opening left out. -/
def ColumnOpening.eraseRoot (o : ColumnOpening) : ColumnOpening :=
  ⟨o.column, o.opening.eraseRoot⟩

/-- The openings with the roots of all of them left out. -/
def ColumnOpenings.eraseRoots (c : ColumnOpenings) : ColumnOpenings :=
  ⟨c.challenged.eraseRoot, c.base.map ColumnOpening.eraseRoot,
    c.expander.map ColumnOpening.eraseRoot⟩

/-- The proof with the roots of all openings left out. -/
def ChallengeProof.eraseRoots (p : ChallengeProof) : ChallengeProof :=
  { p with
    dataOpening := p.dataOpening.eraseRoot
    replicaOpening := p.replicaOpening.eraseRoot
    columns := p.columns.eraseRoots }

section

variable {shape : Merkle.Shape} {position position' : Nat} {root root' : Element}

/-- A valid column opening is determined by what it holds besides its root. -/
theorem ColumnOpening.OpensAt.eq_of_eraseRoot {o o' : ColumnOpening}
    (h : o.OpensAt shape position root) (h' : o'.OpensAt shape position' root')
    (heq : o.eraseRoot = o'.eraseRoot) : o = o' := by
  unfold eraseRoot at heq
  injection heq with hcolumn hroot
  have hopening := Merkle.Opening.eq_of_eraseRoot h.verify_eq h'.verify_eq hroot
  cases o
  cases o'
  cases hcolumn
  cases hopening
  rfl

theorem ColumnOpenings.EachOpensAt.eq_of_map_eraseRoot {openings openings' : List ColumnOpening}
    {positions positions' : List Nat} (h : EachOpensAt shape root openings positions)
    (h' : EachOpensAt shape root' openings' positions')
    (heq : openings.map ColumnOpening.eraseRoot = openings'.map ColumnOpening.eraseRoot) :
    openings = openings' := by
  unfold EachOpensAt at h h'
  induction h generalizing openings' positions' with
  | nil => exact (List.map_eq_nil_iff.mp heq.symm).symm
  | cons hhead _ ih =>
    rcases h' with _ | ⟨hhead', htail'⟩
    · cases heq
    rw [List.map_cons, List.map_cons, List.cons.injEq] at heq
    rw [hhead.eq_of_eraseRoot hhead' heq.1, ih htail' heq.2]

/-- The valid openings of a challenge are determined by what they hold besides their roots. -/
theorem ColumnOpenings.OpenAround.eq_of_eraseRoots {challenge challenge' : Nat}
    {base expander base' expander' : List Nat} {c c' : ColumnOpenings}
    (h : c.OpenAround shape challenge base expander)
    (h' : c'.OpenAround shape challenge' base' expander') (heq : c.eraseRoots = c'.eraseRoots) :
    c = c' := by
  unfold eraseRoots at heq
  injection heq with hchallenged hbase hexpander
  have hchallenged := h.challenged.eq_of_eraseRoot h'.challenged hchallenged
  have hbase := h.base_each.eq_of_map_eraseRoot h'.base_each hbase
  have hexpander := h.expander_each.eq_of_map_eraseRoot h'.expander_each hexpander
  cases c
  cases c'
  cases hchallenged
  cases hbase
  cases hexpander
  rfl

end

namespace ChallengeProof

variable {params : Params} {statement : Statement} {challenge : Nat} {p q : ChallengeProof}

/-- The roots of an accepted proof are those that its leaves and paths lead to. -/
theorem eq_of_eraseRoots (h : p.verify params statement challenge = .ok true)
    (h' : q.verify params statement challenge = .ok true) (heq : q.eraseRoots = p.eraseRoots) :
    q = p := by
  obtain ⟨hchallenge, _, -, -, hanswers⟩ := verify_eq_ok_true_iff.mp h
  obtain ⟨-, _, -, -, hanswers'⟩ := verify_eq_ok_true_iff.mp h'
  obtain ⟨base, expander, hparents⟩ := params.graph.exists_combined hchallenge
  unfold eraseRoots at heq
  injection heq with hdata hreplica hcolumns hlabels hkey
  have hdata := Merkle.Opening.eq_of_eraseRoot hanswers'.data_verify hanswers.data_verify hdata
  have hreplica := Merkle.Opening.eq_of_eraseRoot hanswers'.replica_verify
    hanswers.replica_verify hreplica
  have hcolumns := (hanswers'.columns base expander hparents).eq_of_eraseRoots
    (hanswers.columns base expander hparents) hcolumns
  cases p
  cases q
  cases hdata
  cases hreplica
  cases hcolumns
  cases hlabels
  cases hkey
  rfl

/-! ## Accepted proofs -/

/-- The positions of a proof that are compared with the challenge and its parents: those of the
paths, and those of the label openings. -/
structure Placed (params : Params) (challenge : Nat) (base expander : List Nat)
    (p : ChallengeProof) : Prop where
  parents_eq : params.graph.parents challenge = .ok (base ++ expander)
  baseParents_eq : params.graph.baseParents challenge = .ok base
  data : p.dataOpening.position params.dataShape.arity = challenge
  replica : p.replicaOpening.position params.treeShape.arity = challenge
  challenged : p.columns.challenged.opening.position params.treeShape.arity = challenge
  base_each : p.columns.base.map (fun o => o.opening.position params.treeShape.arity) = base
  expander_each :
    p.columns.expander.map (fun o => o.opening.position params.treeShape.arity) = expander
  length_labels : p.labels.length + 1 = params.plan.layers
  labels : ∀ i (hi : i < p.labels.length),
    p.labels[i].layer.toNat = 2 + i ∧ p.labels[i].node.toNat = challenge
  key : p.key.layer.toNat = params.plan.layers ∧ p.key.node.toNat = challenge

/-- The openings of an accepted proof stand at the challenge and at its parents. -/
theorem exists_placed_of_verify (h : p.verify params statement challenge = .ok true) :
    ∃ base expander, p.Placed params challenge base expander := by
  obtain ⟨hchallenge, _, -, hshaped, hanswers⟩ := verify_eq_ok_true_iff.mp h
  obtain ⟨base, expander, hparents⟩ := params.graph.exists_combined hchallenge
  have hopens := hanswers.columns base expander hparents
  have hchallenged := hopens.challenged.position_eq
  rw [LayerGraph.mod_halfLimit hchallenge] at hchallenged
  refine ⟨base, expander, hparents.parents_eq hchallenge, hparents.baseParents_eq hchallenge,
    hanswers.data_position, hanswers.replica_position, hchallenged,
    hopens.base_each.map_position_eq, hopens.expander_each.map_position_eq,
    hshaped.length_labels, ?_, hanswers.key.layer_eq, hanswers.key.node_eq⟩
  intro i hi
  exact ⟨(hanswers.labels i hi).layer_eq, (hanswers.labels i hi).node_eq⟩

/-- Two accepted proofs under roots with the same digest are the same up to the indices that
columns state, or what is hashed to verify them collides. -/
theorem collide_or_eraseIndices_eq_of_pair_eq (h : p.verify params statement challenge = .ok true)
    (h' : q.verify params statement challenge = .ok true)
    (hpair : params.treeShape.family.pair q.columnRoot q.replicaRoot
      = params.treeShape.family.pair p.columnRoot p.replicaRoot) :
    HashInputs.Collide params (.ofProofs params [q]) (.ofProofs params [p]) ∨
      q.eraseIndices = p.eraseIndices := by
  obtain ⟨hchallenge, commitment, hcommitment, hshaped, hanswers⟩ := verify_eq_ok_true_iff.mp h
  obtain ⟨-, commitment', hcommitment', hshaped', hanswers'⟩ := verify_eq_ok_true_iff.mp h'
  rw [hcommitment] at hcommitment'
  cases hcommitment'
  by_cases hno : HashInputs.Collide params (.ofProofs params [q]) (.ofProofs params [p])
  · exact Or.inl hno
  refine Or.inr ?_
  obtain ⟨hpairs, -⟩ := HashInputs.not_collide_iff.mp hno
  obtain ⟨-, -, hopening⟩ :=
    requireColumn_eq_ok_iff.mp (hshaped.columns _ List.mem_cons_self)
  obtain ⟨digest, hdigest⟩ := params.treeShape.family.exists_pair (isCanonical_root hopening)
    (isCanonical_root hshaped.replicaOpening)
  have hroots : (q.columnRoot, q.replicaRoot) = (p.columnRoot, p.replicaRoot) :=
    eq_of_not_collide hpairs List.mem_cons_self List.mem_cons_self (hpair.trans hdigest) hdigest
  injection hroots with hcolumnRoot hreplicaRoot
  exact eraseIndices_eq_of_roots_eq hchallenge hshaped hanswers hshaped' hanswers' hno
    hcolumnRoot hreplicaRoot

/-- What is bound of an accepted proof. Its paths and label openings are about the challenge and
its parents. The indices that its columns state may be any; without altering them, the proof can
be altered neither in its roots alone, nor in any way that keeps the commitment to its roots, or
else what is hashed to verify it collides. -/
theorem bound_up_to_indices (h : p.verify params statement challenge = .ok true) :
    (∃ base expander, p.Placed params challenge base expander) ∧
    (∀ q : ChallengeProof, q.eraseIndices = p.eraseIndices →
      q.verify params statement challenge = .ok true ∧
        HashInputs.ofProofs params [q] = .ofProofs params [p]) ∧
    (∀ q : ChallengeProof, q.verify params statement challenge = .ok true →
      q.eraseRoots = p.eraseRoots → q = p) ∧
    ∀ q : ChallengeProof, q.verify params statement challenge = .ok true →
      params.treeShape.family.pair q.columnRoot q.replicaRoot
          = params.treeShape.family.pair p.columnRoot p.replicaRoot →
        HashInputs.Collide params (.ofProofs params [q]) (.ofProofs params [p]) ∨
          q.eraseIndices = p.eraseIndices := by
  refine ⟨exists_placed_of_verify h, ?_, ?_, ?_⟩
  · intro q heq
    exact ⟨verify_of_eraseIndices_eq heq h, HashInputs.ofProofs_eq_of_eraseIndices_eq params heq⟩
  · intro q h' heq
    exact eq_of_eraseRoots h h' heq
  · intro q h' hpair
    exact collide_or_eraseIndices_eq_of_pair_eq h h' hpair

/-- A proof of the small sector is accepted at node five, and bound there up to its indices. -/
theorem sample_bound_up_to_indices : ∃ params statement p,
    Params.ofSetup Replica.sampleSettings Replica.sampleShape .sha256 Replica.sampleSetup
      = .ok params ∧
      verify params statement 5 p = .ok true ∧
      (∃ base expander, p.Placed params 5 base expander) ∧
      (∀ q : ChallengeProof, q.eraseIndices = p.eraseIndices →
        q.verify params statement 5 = .ok true ∧
          HashInputs.ofProofs params [q] = .ofProofs params [p]) ∧
      (∀ q : ChallengeProof, q.verify params statement 5 = .ok true →
        q.eraseRoots = p.eraseRoots → q = p) ∧
      ∀ q : ChallengeProof, q.verify params statement 5 = .ok true →
        params.treeShape.family.pair q.columnRoot q.replicaRoot
            = params.treeShape.family.pair p.columnRoot p.replicaRoot →
          HashInputs.Collide params (.ofProofs params [q]) (.ofProofs params [p]) ∨
            q.eraseIndices = p.eraseIndices := by
  obtain ⟨params, nodes, commitment, w, replica, hparams, hmade, -, h⟩ :=
    Replica.exists_sampleReplicated
  have hchallenge : 5 < params.graph.size := by
    rw [hmade.size_eq]
    decide
  obtain ⟨p, -, hverify, -⟩ := Replica.exists_proveChallenge Replica.sampleSettings
    ⟨.zero, .zero, some commitment, none⟩ h (hmade.arity_mem (by decide)) rfl rfl
    (by decide) hchallenge
  exact ⟨params, _, p, hparams, hverify, bound_up_to_indices hverify⟩

/-- The proof whose challenged column states another index. -/
def withIndex (p : ChallengeProof) (index : UInt32) : ChallengeProof :=
  { p with
    columns := { p.columns with
      challenged := ⟨⟨index, p.columns.challenged.column.rows⟩, p.columns.challenged.opening⟩ } }

theorem eraseIndices_withIndex (p : ChallengeProof) (index : UInt32) :
    (p.withIndex index).eraseIndices = p.eraseIndices := rfl

/-- The proof of node five stays accepted when the index of the opened column is replaced by the
largest one, with the same hashed to verify it. -/
theorem sample_index_unbound : ∃ params statement p,
    Params.ofSetup Replica.sampleSettings Replica.sampleShape .sha256 Replica.sampleSetup
      = .ok params ∧
      verify params statement 5 p = .ok true ∧
      p.columns.challenged.column.index.toNat = 5 ∧
      (p.withIndex 4294967295).columns.challenged.column.index.toNat = 4294967295 ∧
      verify params statement 5 (p.withIndex 4294967295) = .ok true ∧
      HashInputs.ofProofs params [p.withIndex 4294967295] = .ofProofs params [p] := by
  obtain ⟨params, nodes, commitment, w, replica, hparams, hmade, -, h⟩ :=
    Replica.exists_sampleReplicated
  have hchallenge : 5 < params.graph.size := by
    rw [hmade.size_eq]
    decide
  obtain ⟨base, expander, hparents⟩ := params.graph.exists_combined hchallenge
  have hverify : (w.challengeProof params.plan.layers 5 base expander).verify params
      ⟨.zero, .zero, some commitment, none⟩ 5 = .ok true :=
    Replica.verify_challengeProof h (hmade.arity_mem (by decide)) hparents hchallenge (by decide)
      rfl rfl
  have heq := eraseIndices_withIndex (w.challengeProof params.plan.layers 5 base expander)
    4294967295
  exact ⟨params, _, _, hparams, hverify, rfl, rfl, verify_of_eraseIndices_eq heq hverify,
    HashInputs.ofProofs_eq_of_eraseIndices_eq params heq⟩

end ChallengeProof

end Replication
