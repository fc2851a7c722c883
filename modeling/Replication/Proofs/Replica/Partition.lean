import Replication.Proofs.Challenge
import Replication.Proofs.Replica.Honest

/-!
# Proofs of a partition

The prover answers the challenges of a partition one by one, and verifies every answer if its
settings say so; the verifier asks for one proof for each challenge, all under the two roots that
the commitment hashes. Both are taken apart here into what they say of each challenge.
-/

namespace Replication.Replica

variable {settings : Settings} {params : Params} {replicaId : Element}
  {nodes replica : List Element} {commitment : Commitment} {w : Witness} {statement : Statement}
  {proofs : List ChallengeProof}

/-- The challenges of a statement's partition. -/
def challengesOf (params : Params) (statement : Statement) : Result (List Nat) :=
  statement.challenges params.plan params.graph.size (some (statement.partition.getD 0))

/-- A statement has as many challenges as a partition, each a node other than the first. -/
theorem bounds_of_challengesOf {challenges : List Nat}
    (h : challengesOf params statement = .ok challenges) :
    challenges.length = params.plan.perPartition ∧
      ∀ c ∈ challenges, c ≠ 0 ∧ c < params.graph.size :=
  Challenge.bounds_of_derive h

/-- A statement has challenges as soon as the last ordinal of its partition fits 32 bits. -/
theorem exists_challengesOf
    (hordinals : params.plan.perPartition * (statement.partition.getD 0 + 1) ≤ Word.halfLimit) :
    ∃ challenges, challengesOf params statement = .ok challenges :=
  Challenge.exists_derive params.graph.two_le_size _ _ hordinals

/-! ## The prover -/

/-- The prover's own check passes exactly the proofs the verifier accepts. -/
theorem requireValid_eq_ok_iff {challenge : Nat} {p : ChallengeProof} {u : Unit} :
    requireValid params statement challenge p = .ok u ↔
      p.verify params statement challenge = .ok true := by
  unfold requireValid
  simp only [Result.bind_eq_ok_iff, Result.require_eq_ok_iff, exists_eq_right]

/-- A proof is returned exactly if the witness provides it and, where the prover verifies what it
proves, it is valid. -/
theorem proveChallenge_eq_ok_iff {challenge : Nat} {p : ChallengeProof} :
    proveChallenge settings params statement w challenge = .ok p ↔
      assembleProof params w challenge = .ok p ∧
        (settings.verifyWhileProving = true → p.verify params statement challenge = .ok true) := by
  unfold proveChallenge
  by_cases hverify : settings.verifyWhileProving = true
  · simp only [hverify, if_true, Result.bind_eq_ok_iff, requireValid_eq_ok_iff, Result.pure_eq_ok,
      Except.ok.injEq, forall_const]
    constructor
    · rintro ⟨_, hassembled, _, hvalid, rfl⟩
      exact ⟨hassembled, hvalid⟩
    · rintro ⟨hassembled, hvalid⟩
      exact ⟨p, hassembled, (), hvalid, rfl⟩
  · simp only [hverify]
    simp [Result.bind_eq_ok_iff]

/-- A valid proof is returned whatever the settings are. -/
theorem proveChallenge_of_verify {challenge : Nat} {p : ChallengeProof}
    (hassembled : assembleProof params w challenge = .ok p)
    (hvalid : p.verify params statement challenge = .ok true) :
    proveChallenge settings params statement w challenge = .ok p :=
  proveChallenge_eq_ok_iff.mpr ⟨hassembled, fun _ => hvalid⟩

/-- The layers and trees that a prover holds are those of a known commitment. -/
structure Provable (layers : Nat) (known : Option Commitment) (w : Witness) : Prop where
  one_lt : 1 < layers
  count_eq : w.layers.count = layers
  data_eq : ∃ commitment, known = some commitment ∧ commitment.data = w.dataTree.root
  columns_eq : w.inner.columns = w.columnTree.root
  replica_eq : w.inner.replica = w.replicaTree.root

/-- A partition is proved exactly if its challenges are, under a commitment that the witness
provides for. -/
theorem prove_eq_ok_iff_provable :
    prove settings params statement w = .ok proofs ↔
      Provable params.plan.layers statement.commitment w ∧
        ∃ challenges, challengesOf params statement = .ok challenges ∧
          challenges.mapM (proveChallenge settings params statement w) = .ok proofs := by
  unfold prove
  constructor
  · intro h
    obtain ⟨_, hlayers, h⟩ := Result.bind_eq_ok h
    obtain ⟨_, hcount, h⟩ := Result.bind_eq_ok h
    rcases hknown : statement.commitment with _ | commitment
    · rw [hknown] at h
      cases h
    · rw [hknown] at h
      obtain ⟨_, hdata, h⟩ := Result.bind_eq_ok h
      obtain ⟨_, hcolumns, h⟩ := Result.bind_eq_ok h
      obtain ⟨_, hreplica, h⟩ := Result.bind_eq_ok h
      exact ⟨⟨Result.require_eq_ok_iff.mp hlayers, Result.require_eq_ok_iff.mp hcount,
        ⟨commitment, rfl, Result.require_eq_ok_iff.mp hdata⟩,
        Result.require_eq_ok_iff.mp hcolumns, Result.require_eq_ok_iff.mp hreplica⟩,
        Result.bind_eq_ok h⟩
  · rintro ⟨⟨hlayers, hcount, ⟨commitment, hknown, hdata⟩, hcolumns, hreplica⟩, h⟩
    simp only [hknown, Result.require_of hlayers, Result.require_of hcount,
      Result.require_of hdata, Result.require_of hcolumns, Result.require_of hreplica,
      Result.ok_bind]
    exact Result.bind_eq_ok_iff.mpr h

/-- A prover that verifies what it proves returns valid proofs only, whatever witness it holds. -/
theorem forall₂_verify_of_prove (hverify : settings.verifyWhileProving = true)
    (h : prove settings params statement w = .ok proofs) :
    ∃ challenges, challengesOf params statement = .ok challenges ∧
      List.Forall₂ (fun p challenge => p.verify params statement challenge = .ok true)
        proofs challenges := by
  obtain ⟨-, challenges, hchallenges, hproofs⟩ := prove_eq_ok_iff_provable.mp h
  refine ⟨challenges, hchallenges, List.Forall₂.flip ?_⟩
  refine (Result.mapM_eq_ok_iff.mp hproofs).imp ?_
  intro challenge p hprove
  exact (proveChallenge_eq_ok_iff.mp hprove).2 hverify

/-- What a replication leaves behind meets all that is asked of a witness. -/
theorem Replicated.provable (h : Replicated params replicaId none nodes commitment w replica) :
    Provable params.plan.layers (some commitment) w := by
  obtain ⟨htwo, -⟩ := layers_bounds h.layers_mem
  refine ⟨htwo, h.generated.count_eq, ⟨commitment, rfl, h.data_eq⟩, ?_, ?_⟩
  · rw [h.inner_eq]
  · rw [h.inner_eq]

/-- With the witness of the commitment, a partition is proved exactly if its challenges are. -/
theorem prove_eq_ok_iff (h : Replicated params replicaId none nodes commitment w replica)
    (hcommitment : statement.commitment = some commitment) :
    prove settings params statement w = .ok proofs ↔
      ∃ challenges, challengesOf params statement = .ok challenges ∧
        challenges.mapM (proveChallenge settings params statement w) = .ok proofs := by
  rw [prove_eq_ok_iff_provable, hcommitment, and_iff_right h.provable]

/-- Every challenge of a partition has a proof, and it is accepted. -/
theorem exists_proveChallenge (settings : Settings) (statement : Statement)
    (h : Replicated params replicaId none nodes commitment w replica)
    (harity : params.treeShape.arity ∈ [2, 4, 8, 16])
    (hid : statement.replicaId = replicaId) (hcommitment : statement.commitment = some commitment)
    {challenge : Nat} (hzero : challenge ≠ 0) (hchallenge : challenge < params.graph.size) :
    ∃ p, proveChallenge settings params statement w challenge = .ok p ∧
      p.verify params statement challenge = .ok true ∧
      SharesRoots w.columnTree.root w.replicaTree.root p := by
  obtain ⟨htwo, -⟩ := layers_bounds h.layers_mem
  obtain ⟨base, expander, hparents⟩ := params.graph.exists_combined hchallenge
  have hvalid := verify_challengeProof h harity hparents hchallenge hzero hid hcommitment
  exact ⟨_, proveChallenge_of_verify (assembleProof_eq h hparents hchallenge hzero htwo) hvalid,
    hvalid, rfl, rfl⟩

/-! ## The verifier -/

/-- What an accepted partition says of its first proof and of every proof. -/
structure Accepted (params : Params) (statement : Statement) (commitment : Commitment)
    (first : ChallengeProof) (proofs : List ChallengeProof) (challenges : List Nat) :
    Prop where
  length_proofs : proofs.length = params.plan.perPartition
  challenges_eq : challengesOf params statement = .ok challenges
  columnRoot_canonical : first.columnRoot.IsCanonical
  replicaRoot_canonical : first.replicaRoot.IsCanonical
  pair_eq : params.treeShape.family.pair first.columnRoot first.replicaRoot
    = .ok commitment.replica
  each : List.Forall₂ (fun p challenge =>
    SharesRoots first.columnRoot first.replicaRoot p ∧
      p.verify params statement challenge = .ok true) proofs challenges

/-- A full list of proofs is accepted exactly if it is for the challenges of its statement. -/
theorem verifyProofs_eq_ok_true_iff {first : ChallengeProof}
    (hlen : proofs.length = params.plan.perPartition) :
    verifyProofs params statement commitment first proofs = .ok true ↔
      ∃ challenges, Accepted params statement commitment first proofs challenges := by
  -- all answers are yes exactly if each proof is right at the challenge it is paired with
  have hanswers : ∀ challenges : List Nat, (∃ answers,
      (proofs.zip challenges).mapM (fun (pair : ChallengeProof × Nat) =>
        Result.andAlso
          (Result.check (SharesRoots first.columnRoot first.replicaRoot pair.1))
          (pair.1.verify params statement pair.2)) = .ok answers ∧ answers.all id = true) ↔
      ∀ pair ∈ proofs.zip challenges, SharesRoots first.columnRoot first.replicaRoot pair.1 ∧
        pair.1.verify params statement pair.2 = .ok true := by
    intro challenges
    simp only [Result.mapM_all_true_iff, Result.andAlso_eq_ok_true_iff,
      Result.check_eq_ok_true_iff]
  unfold verifyProofs Merkle.Opening.requireCanonical
  refine ⟨?_, ?_⟩
  · intro h
    obtain ⟨_, hcanonical, h⟩ := Result.bind_eq_ok h
    have hcanonical := Result.require_eq_ok_iff.mp hcanonical
    obtain ⟨digest, hdigest, h⟩ := Result.bind_eq_ok h
    split at h
    · rename_i heq
      obtain ⟨challenges, hchallenges, h⟩ := Result.bind_eq_ok h
      obtain ⟨answers, hmap, hall⟩ := Result.bind_eq_ok h
      injection hall with hall
      have heach := (hanswers challenges).mp ⟨answers, hmap, hall⟩
      refine ⟨challenges, hlen, hchallenges, hcanonical _ List.mem_cons_self,
        hcanonical _ (List.mem_cons_of_mem _ List.mem_cons_self), heq ▸ hdigest, ?_⟩
      rw [List.forall₂_iff_zip]
      refine ⟨?_, fun hpair => heach _ hpair⟩
      rw [hlen, (bounds_of_challengesOf hchallenges).1]
    · cases h
  · intro h
    obtain ⟨challenges, h⟩ := h
    have hcanonical : ∀ e ∈ [first.columnRoot, first.replicaRoot], e.IsCanonical := by
      simp only [List.forall_mem_cons]
      exact ⟨h.columnRoot_canonical, h.replicaRoot_canonical, by simp⟩
    obtain ⟨answers, hmap, hall⟩ := (hanswers challenges).mpr
      fun pair hpair => (List.forall₂_iff_zip.mp h.each).2 hpair
    have hchallenges := h.challenges_eq
    unfold challengesOf at hchallenges
    rw [Result.require_of hcanonical, Result.ok_bind, h.pair_eq, Result.ok_bind, if_pos rfl,
      hchallenges, Result.ok_bind]
    show (proofs.zip challenges).mapM _ >>= _ = _
    rw [hmap, Result.ok_bind, hall]
    rfl

/-- A partition is accepted exactly if its commitment is known and all its proofs, the first of
which there is, answer their challenges under it. -/
theorem verify_eq_ok_true_iff :
    verify params statement proofs = .ok true ↔
      ∃ commitment first challenges, statement.commitment = some commitment ∧
        proofs.head? = some first ∧
        Accepted params statement commitment first proofs challenges := by
  unfold verify
  rcases statement.commitment with _ | commitment
  · simp
  rcases proofs with _ | ⟨first, rest⟩
  · simp [refuse]
  refine ⟨?_, ?_⟩
  · intro h
    obtain ⟨_, hlen, h⟩ := Result.bind_eq_ok h
    obtain ⟨challenges, haccepted⟩ :=
      (verifyProofs_eq_ok_true_iff (Result.require_eq_ok_iff.mp hlen)).mp h
    exact ⟨commitment, first, challenges, rfl, rfl, haccepted⟩
  · intro h
    obtain ⟨_, _, challenges, hcommitment, hfirst, haccepted⟩ := h
    cases hcommitment
    cases hfirst
    show Result.require _ _ >>= _ = _
    rw [Result.require_of haccepted.length_proofs, Result.ok_bind]
    exact (verifyProofs_eq_ok_true_iff haccepted.length_proofs).mpr ⟨challenges, haccepted⟩

/-! ## What the prover returns is accepted -/

/-- Proofs that share the roots of a witness are accepted together if each is at its challenge. -/
theorem verify_of_forall₂ (h : Replicated params replicaId none nodes commitment w replica)
    (hcount : 1 ≤ params.plan.perPartition) (hcommitment : statement.commitment = some commitment)
    {challenges : List Nat} (hchallenges : challengesOf params statement = .ok challenges)
    (hlen : proofs.length = params.plan.perPartition)
    (heach : List.Forall₂ (fun p challenge =>
      SharesRoots w.columnTree.root w.replicaTree.root p ∧
        p.verify params statement challenge = .ok true) proofs challenges) :
    verify params statement proofs = .ok true := by
  rcases proofs with _ | ⟨first, rest⟩
  · rw [List.length_nil] at hlen
    omega
  obtain ⟨-, hcolumnTree⟩ := h.columnTree_over
  obtain ⟨-, hreplicaTree⟩ := h.replicaTree_over
  -- the roots that all proofs are compared with are those of the first
  have hroots : SharesRoots w.columnTree.root w.replicaTree.root first := by
    rcases heach with _ | ⟨hfirst, -⟩
    exact hfirst.1
  obtain ⟨hcolumnRoot, hreplicaRoot⟩ := hroots
  refine verify_eq_ok_true_iff.mpr ⟨commitment, first, challenges, hcommitment, rfl, hlen,
    hchallenges, ?_, ?_, ?_, ?_⟩
  · rw [hcolumnRoot]
    exact hcolumnTree.isCanonical_root
  · rw [hreplicaRoot]
    exact hreplicaTree.isCanonical_root
  · rw [hcolumnRoot, hreplicaRoot]
    exact h.replica_eq
  · rw [hcolumnRoot, hreplicaRoot]
    exact heach

/-- The prover's proofs of a partition are accepted. -/
theorem exists_prove_accepted (settings : Settings) (statement : Statement)
    (h : Replicated params replicaId none nodes commitment w replica)
    (harity : params.treeShape.arity ∈ [2, 4, 8, 16]) (hcount : 1 ≤ params.plan.perPartition)
    (hid : statement.replicaId = replicaId) (hcommitment : statement.commitment = some commitment)
    (hordinals : params.plan.perPartition * (statement.partition.getD 0 + 1)
      ≤ Word.halfLimit) :
    ∃ proofs challenges, prove settings params statement w = .ok proofs ∧
      proofs.length = params.plan.perPartition ∧
      challengesOf params statement = .ok challenges ∧
      List.Forall₂ (fun p challenge => p.verify params statement challenge = .ok true)
        proofs challenges ∧
      verify params statement proofs = .ok true := by
  obtain ⟨challenges, hchallenges⟩ := exists_challengesOf hordinals
  obtain ⟨hlenChallenges, hbounds⟩ := bounds_of_challengesOf hchallenges
  have hprovable : ∀ challenge ∈ challenges, ∃ p,
      proveChallenge settings params statement w challenge = .ok p ∧
      p.verify params statement challenge = .ok true ∧
      SharesRoots w.columnTree.root w.replicaTree.root p := by
    intro challenge hmem
    obtain ⟨hzero, hlt⟩ := hbounds challenge hmem
    exact exists_proveChallenge settings statement h harity hid hcommitment hzero hlt
  -- what holds of the proof of each challenge holds of the traversal of all
  have hexists : ∃ proofs,
      challenges.mapM (proveChallenge settings params statement w) = .ok proofs := by
    apply Result.exists_mapM
    intro challenge hmem
    obtain ⟨p, hp, -⟩ := hprovable challenge hmem
    exact ⟨p, hp⟩
  obtain ⟨proofs, hproofs⟩ := hexists
  have hlen : proofs.length = params.plan.perPartition := by
    rw [Result.length_of_mapM hproofs, hlenChallenges]
  -- each proof is the one that its challenge was shown to have
  have heach : List.Forall₂ (fun p challenge =>
      SharesRoots w.columnTree.root w.replicaTree.root p ∧
        p.verify params statement challenge = .ok true) proofs challenges := by
    have hpairs := (List.forall₂_and_left _ _).mpr
      ⟨hprovable, Result.mapM_eq_ok_iff.mp hproofs⟩
    refine List.Forall₂.flip (hpairs.imp ?_)
    intro challenge p hp
    obtain ⟨⟨p', hp', hverify, hroots⟩, hprove⟩ := hp
    rw [hprove] at hp'
    cases hp'
    exact ⟨hroots, hverify⟩
  refine ⟨proofs, challenges, ?_, hlen, hchallenges, heach.imp fun _ _ hp => hp.2, ?_⟩
  · exact (prove_eq_ok_iff h hcommitment).mpr ⟨challenges, hchallenges, hproofs⟩
  · exact verify_of_forall₂ h hcount hcommitment hchallenges hlen heach

end Replication.Replica
