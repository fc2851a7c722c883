import Replication.Proofs.Replica.Partition
import Replication.Proofs.Replica.Setup

/-!
# Completeness

Whoever replicates data over the parameters of a setup can prove every partition whose ordinals
fit, whether what is proved is verified at once or not, and the proofs are accepted: each one at its
challenge, and all of them together.
-/

namespace Replication.Replica

/-- Data of canonical nodes, as many as fill a supported tree, is replicated; and for all settings
of the prover, every seed and every partition whose ordinals fit, the prover proves each challenge,
each proof is accepted at its challenge, and the partition is accepted. -/
theorem replicate_prove_verify {settings : Settings} {treeShape : Merkle.Shape}
    {dataFamily : HashFamily} {setup : Setup} {params : Params}
    (hsetup : Params.ofSetup settings treeShape dataFamily setup = .ok params)
    (hcount : 1 ≤ setup.plan.perPartition) (hshape : treeShape.Supported) {height : Nat}
    (hheight : 1 ≤ height) (hnodes : setup.nodes = treeShape.arity ^ height)
    (replicaId : Element) {data : Bytes} (hlen : data.length = setup.nodes * nodeSize)
    (hdata : ∀ node ∈ pieces nodeSize data, Bytes.toNatLE node < modulus) :
    ∃ commitment w replica,
      replicate params replicaId none data = (.ok (commitment, w), replica) ∧
      ∀ (proving : Settings) seed (k : Nat), setup.plan.perPartition * (k + 1) ≤ 2 ^ 32 →
        ∃ proofs challenges,
          prove proving params ⟨replicaId, seed, some commitment, some k⟩ w = .ok proofs ∧
          proofs.length = setup.plan.perPartition ∧
          setup.plan.challenges setup.nodes replicaId seed k = .ok challenges ∧
          List.Forall₂ (fun p challenge => p.verify params
            ⟨replicaId, seed, some commitment, some k⟩ challenge = .ok true)
            proofs challenges ∧
          verify params ⟨replicaId, seed, some commitment, some k⟩ proofs = .ok true := by
  have hmade := Params.madeFrom_of_ofSetup hsetup
  obtain ⟨nodes, commitment, w, replica, hconcat, h⟩ :=
    exists_replicated_of_data hmade hshape hheight hnodes replicaId hlen hdata
  refine ⟨commitment, w, HashFamily.concatBytes replica,
    replicate_eq_ok_iff.mpr ⟨nodes, replica, hconcat, rfl, h⟩, ?_⟩
  intro proving seed k hordinals
  have harity := hmade.arity_mem hshape
  rw [← hmade.plan_eq] at hcount hordinals ⊢
  rw [← hmade.size_eq]
  exact exists_prove_accepted proving ⟨replicaId, seed, some commitment, some k⟩ h harity hcount rfl
    rfl hordinals

/-- The small sector is replicated and every partition of it is accepted. -/
theorem sample_replicate_prove_verify : ∃ params,
    Params.ofSetup sampleSettings sampleShape .sha256 sampleSetup = .ok params ∧
      ∃ commitment w replica,
        replicate params .zero none sampleData = (.ok (commitment, w), replica) ∧
        ∀ (proving : Settings) seed (k : Nat), sampleSetup.plan.perPartition * (k + 1) ≤ 2 ^ 32 →
          ∃ proofs challenges,
            prove proving params ⟨.zero, seed, some commitment, some k⟩ w = .ok proofs ∧
            proofs.length = sampleSetup.plan.perPartition ∧
            sampleSetup.plan.challenges sampleSetup.nodes .zero seed k = .ok challenges ∧
            List.Forall₂ (fun p challenge => p.verify params
              ⟨.zero, seed, some commitment, some k⟩ challenge = .ok true) proofs challenges ∧
            verify params ⟨.zero, seed, some commitment, some k⟩ proofs = .ok true := by
  obtain ⟨params, hparams⟩ := exists_sampleParams
  exact ⟨params, hparams, replicate_prove_verify hparams (by decide) (by decide)
    (show 1 ≤ 2 by decide) (by decide) .zero List.length_replicate toNatLE_sampleData⟩

end Replication.Replica
