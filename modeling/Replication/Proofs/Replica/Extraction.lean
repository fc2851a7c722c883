import Replication.Proofs.Replica.Setup

/-!
# Extraction undoes replication

Replication encodes every node under its label in the last layer; extraction labels the graph
again and decodes every node under the same label. So a replica is extracted to the data it was
made from, and whatever can be extracted is the replica of what it is extracted to.
-/

namespace Replication.Replica

variable {params : Params} {replicaId : Element} {given : Option Merkle.Tree}
  {nodes replica : List Element} {commitment : Commitment} {w : Witness}

/-- Extraction from a finished replica finds its layers and the original nodes. -/
theorem Replicated.extracted
    (h : Replicated params replicaId given nodes commitment w replica) :
    Extracted params replicaId replica w.layers nodes where
  length_replica := by
    rw [h.replaced.length_replaced, h.length_keys, h.length_nodes]
  canonical := h.isCanonical_replica
  layers_eq := h.layers_eq
  layers_pos := h.layers_pos
  replaced := h.replaced.decode_of_encode

/-- Both label the graph alike, so they use the same keys. -/
theorem Extracted.keys_eq {layers : Layers} {nodes' replica' : List Element}
    (hextracted : Extracted params replicaId replica' layers nodes')
    (h : Replicated params replicaId given nodes commitment w replica) : layers = w.layers := by
  have hsame := hextracted.layers_eq.symm.trans h.layers_eq
  injection hsame

/-- Keys and nodes determine what the nodes are replaced by. -/
theorem Replaced.unique {f : Element → Element → Result Element}
    {keys nodes replaced replaced' : List Element} (h : Replaced f keys nodes replaced)
    (h' : Replaced f keys nodes replaced') : replaced = replaced' := by
  induction h generalizing replaced' with
  | nil =>
    cases h'
    rfl
  | cons hhead _ ih =>
    rcases h' with _ | ⟨hhead', htail'⟩
    rw [hhead] at hhead'
    injection hhead' with hnew
    rw [hnew, ih htail']

/-- What was replicated is extracted again, byte for byte; and what was extracted is replicated
again to the replica it came from. -/
theorem extract_replicate_and_replicate_extract (params : Params) (replicaId : Element)
    (given : Option Merkle.Tree) :
    (∀ data out result, replicate params replicaId given data = (.ok out, result) →
      extract params replicaId result = .ok data) ∧
    (∀ result data out result', extract params replicaId result = .ok data →
      replicate params replicaId given data = (.ok out, result') → result' = result) := by
  refine ⟨?_, ?_⟩
  · intro data out result hreplicate
    obtain ⟨nodes, replica, hdata, hresult, h⟩ := replicate_eq_ok_iff.mp hreplicate
    exact extract_eq_ok_iff.mpr ⟨replica, out.2.layers, nodes, hresult, hdata, h.extracted⟩
  · intro result data out result' hextract hreplicate
    obtain ⟨replica, layers, nodes, hresult, hdata, hextracted⟩ := extract_eq_ok_iff.mp hextract
    obtain ⟨nodes', replica', hdata', hresult', h⟩ := replicate_eq_ok_iff.mp hreplicate
    have hnodes : nodes' = nodes := HashFamily.concatBytes_injective (hdata'.trans hdata.symm)
    subst hnodes
    have hlayers := hextracted.keys_eq h
    subst hlayers
    -- the replica that was decoded is the one that encoding makes
    have hreplica := h.replaced.unique hextracted.replaced.encode_of_decode
    rw [← hresult, ← hresult', hreplica]

/-- The small sector is extracted to its data, and replicated again to the same replica. -/
theorem sample_extract_replicate : ∃ params out result,
    Params.ofSetup sampleSettings sampleShape .sha256 sampleSetup = .ok params ∧
      replicate params .zero none sampleData = (.ok out, result) ∧
      extract params .zero result = .ok sampleData ∧
      ∀ out' result', replicate params .zero none sampleData = (.ok out', result') →
        result' = result := by
  obtain ⟨params, nodes, commitment, w, replica, hparams, -, hconcat, h⟩ :=
    exists_sampleReplicated
  have hreplicate := replicate_eq_ok_iff.mpr ⟨nodes, replica, hconcat, rfl, h⟩
  obtain ⟨hundone, hredone⟩ := extract_replicate_and_replicate_extract params .zero none
  have hextract := hundone _ _ _ hreplicate
  exact ⟨params, _, _, hparams, hreplicate, hextract, fun out' result' =>
    hredone _ _ out' result' hextract⟩

end Replication.Replica
