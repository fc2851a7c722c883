import Replication.Proofs.Replica.Extraction

/-!
# Extraction node by node

A single node is extracted through steps of its own: its bytes are cut out of the replica, checked
alone, and decoded under the label found for it. On a replica of canonical nodes that is one step of
the walk that extracts the whole replica (`extractNode_eq`). So the data of a replica is the data of
its nodes, and neither way succeeds where the other one fails: both need canonical nodes and a layer
of labels, and nothing else (`exists_extract_iff`).

A node behind the last one is refused, by its place, as long as its end is a word
(`nodeAt_extractNode_outcome`).
-/

namespace Replication.Replica

variable {params : Params} {replicaId : Element} {replica nodes : List Element} {layers : Layers}

/-- A replica can be extracted if it has full size, its nodes are elements of the field, and there
is a layer of labels. -/
theorem exists_extract_iff {result : Bytes} :
    (∃ data, extract params replicaId result = .ok data) ↔
      (result.length = params.graph.size * nodeSize ∧
        ∀ node ∈ pieces nodeSize result, Bytes.toNatLE node < modulus) ∧
      1 ≤ params.plan.layers := by
  simp only [extract_eq_ok_iff, ← Data.exists_elements_iff]
  constructor
  · intro h
    obtain ⟨_, replica, _, _, hresult, -, h⟩ := h
    exact ⟨⟨replica, hresult, h.length_replica, h.canonical⟩, h.layers_pos⟩
  · intro h
    obtain ⟨⟨replica, hresult, hlen, hcanonical⟩, hpos⟩ := h
    obtain ⟨layers, hlayers⟩ :=
      Layers.exists_generate params.graph params.plan.layers replicaId
    have hgenerated := Layers.generated_of_generate hlayers
    have hlast := hgenerated.labelled params.plan.layers hpos (Nat.le_refl _)
    have hkeys := hgenerated.length_labelsOf hpos (Nat.le_refl _)
    obtain ⟨nodes, hreplaced⟩ := exists_replaced (f := Encoding.decode)
      (fun key hkey node hnode =>
        Encoding.exists_decode (hlast.isCanonical key hkey) (hcanonical node hnode))
      (hkeys.trans hlen.symm)
    exact ⟨_, replica, layers, nodes, hresult, rfl, hlen, hcanonical, hlayers, hpos, hreplaced⟩

/-- A node is decoded under its label in the last layer. -/
theorem extractNode_eq (hlen : replica.length = params.graph.size)
    (hcanonical : ∀ e ∈ replica, e.IsCanonical)
    (hlayers : Layers.generate params.graph params.plan.layers replicaId = .ok layers)
    (hpos : 1 ≤ params.plan.layers) {v : Nat} (hv : v < replica.length) :
    extractNode params replicaId (HashFamily.concatBytes replica) v
      = Encoding.decode (layers.entry params.plan.layers v) replica[v] := by
  have hsize := params.graph.size_lt
  have hgenerated := Layers.generated_of_generate hlayers
  have hbytes := Data.nodeAt_concatBytes (show replica.length < Word.halfLimit by omega) hv
  have hread : Element.ofCanonicalBytes replica[v].bytes = .ok replica[v] :=
    Element.ofCanonicalBytes_eq_ok_iff.mpr ⟨rfl, hcanonical _ (List.getElem_mem hv)⟩
  have hkey := hgenerated.label_eq hpos (Nat.le_refl _) (show v < params.graph.size by omega)
  -- nodes are below `2 ^ 32`, so the low bits of a node are the node
  have hmod : v % Word.halfLimit = v := Nat.mod_eq_of_lt (by omega)
  unfold extractNode
  rw [hbytes, Result.ok_bind, hread, Result.ok_bind, hlayers, Result.ok_bind, hmod,
    hgenerated.count_eq, hkey, Result.ok_bind]

/-- The nodes of a replica are decoded as a whole exactly if each one is extracted. -/
theorem replaced_iff_mapM_extractNode (hlen : replica.length = params.graph.size)
    (hcanonical : ∀ e ∈ replica, e.IsCanonical)
    (hlayers : Layers.generate params.graph params.plan.layers replicaId = .ok layers)
    (hpos : 1 ≤ params.plan.layers) :
    Replaced Encoding.decode (layers.labelsOf params.plan.layers).toList replica nodes ↔
      (List.range params.graph.size).mapM
        (extractNode params replicaId (HashFamily.concatBytes replica)) = .ok nodes := by
  have hkeys := (Layers.generated_of_generate hlayers).length_labelsOf hpos (Nat.le_refl _)
  have hkey : ∀ v (hv : v < (layers.labelsOf params.plan.layers).toList.length),
      (layers.labelsOf params.plan.layers).toList[v] = layers.entry params.plan.layers v := by
    intro v hv
    rw [Array.getElem_toList, Layers.entry, Array.getElem_eq_getD Element.zero]
  have hnode := fun v => extractNode_eq hlen hcanonical hlayers hpos (v := v)
  rw [Result.mapM_range_eq_ok_iff]
  constructor
  · intro h
    have hnodes := h.length_replaced.trans hkeys
    refine ⟨hnodes, ?_⟩
    intro v hv
    rw [hnode v (by omega), ← hkey v (by omega)]
    exact h.getElem _ _ hv
  · intro h
    obtain ⟨hnodes, heach⟩ := h
    apply Replaced.of_getElem (hkeys.trans hlen.symm) (hnodes.trans hlen.symm)
    intro v hv hv' hv''
    rw [hkey v hv, ← hnode v hv', heach v hv'']

/-- The bytes of a replica are canonical nodes if each of its nodes can be extracted. -/
theorem exists_nodes_of_extractNode {result : Bytes}
    (hlen : result.length = params.graph.size * nodeSize)
    (h : ∀ v < params.graph.size, ∃ node, extractNode params replicaId result v = .ok node) :
    ∃ replica, Data.nodes result = .ok replica := by
  unfold Data.nodes
  rw [pieces_eq_map_range (by decide) hlen]
  apply Result.exists_mapM
  intro piece hpiece
  obtain ⟨v, hv, rfl⟩ := List.mem_map.mp hpiece
  -- a piece is what the extraction of its node reads first
  obtain ⟨node, hnode⟩ := h v (List.mem_range.mp hv)
  obtain ⟨bytes, hbytes, hnode⟩ := Result.bind_eq_ok hnode
  obtain ⟨encoded, hencoded, -⟩ := Result.bind_eq_ok hnode
  obtain ⟨-, -, rfl⟩ := Data.nodeAt_eq_ok_iff.mp hbytes
  exact ⟨encoded, hencoded⟩

/-- A node that can be extracted has a label, so there is a layer. -/
theorem layers_pos_of_extractNode {result : Bytes} {v : Nat} {node : Element}
    (h : extractNode params replicaId result v = .ok node) : 1 ≤ params.plan.layers := by
  obtain ⟨_, -, h⟩ := Result.bind_eq_ok h
  obtain ⟨_, -, h⟩ := Result.bind_eq_ok h
  obtain ⟨layers, hlayers, h⟩ := Result.bind_eq_ok h
  obtain ⟨key, hkey, -⟩ := Result.bind_eq_ok h
  obtain ⟨labels, hlast, -⟩ := Result.bind_eq_ok hkey
  exact ((Layers.generated_of_generate hlayers).last_eq_ok_iff.mp hlast).1

/-- A replica of full size is extracted to the data of its nodes in order. -/
theorem extract_eq_ok_iff_mapM {result data : Bytes} :
    extract params replicaId result = .ok data ↔
      result.length = params.graph.size * nodeSize ∧
        ∃ nodes, (List.range params.graph.size).mapM (extractNode params replicaId result)
          = .ok nodes ∧ HashFamily.concatBytes nodes = data := by
  rw [extract_eq_ok_iff]
  constructor
  · intro h
    obtain ⟨replica, layers, nodes, rfl, hdata, h⟩ := h
    refine ⟨?_, nodes, ?_, hdata⟩
    · rw [HashFamily.length_concatBytes, h.length_replica]
    · exact (replaced_iff_mapM_extractNode h.length_replica h.canonical h.layers_eq
        h.layers_pos).mp h.replaced
  · intro h
    obtain ⟨hlen, nodes, hnodes, hdata⟩ := h
    have heach : ∀ v < params.graph.size,
        ∃ node, extractNode params replicaId result v = .ok node :=
      fun v hv => Result.exists_of_mapM hnodes (List.mem_range.mpr hv)
    -- a node that is extracted was read, so all of them are canonical; and it took a last layer
    obtain ⟨replica, hreplica⟩ := exists_nodes_of_extractNode hlen heach
    obtain ⟨rfl, hcanonical⟩ := Data.nodes_eq_ok_iff.mp hreplica
    have hsize := params.graph.two_le_size
    obtain ⟨first, hfirst⟩ := heach 0 (by omega)
    have hpos := layers_pos_of_extractNode hfirst
    obtain ⟨layers, hlayers⟩ :=
      Layers.exists_generate params.graph params.plan.layers replicaId
    have hcount := HashFamily.length_concatBytes_eq_iff.mp hlen
    exact ⟨replica, layers, nodes, rfl, hdata, hcount, hcanonical, hlayers, hpos,
      (replaced_iff_mapM_extractNode hcount hcanonical hlayers hpos).mpr hnodes⟩

/-- A replica can be extracted exactly if it has full size and each of its nodes can be extracted,
and it is then extracted to the data of its nodes, in order. So it is where the nodes of the replica
are elements of the field and there is a layer of labels. -/
theorem extract_agrees_with_extractNode (params : Params) (replicaId : Element)
    (replica : Bytes) :
    ((∃ data, extract params replicaId replica = .ok data) ↔
      replica.length = params.graph.size * nodeSize ∧
        ∀ v < params.graph.size, ∃ node, extractNode params replicaId replica v = .ok node) ∧
    (∀ data, extract params replicaId replica = .ok data →
      ∃ nodes, List.Forall₂ (fun v node => extractNode params replicaId replica v = .ok node)
        (List.range params.graph.size) nodes ∧ data = nodes.flatMap Element.bytes) ∧
    ((∃ data, extract params replicaId replica = .ok data) ↔
      (replica.length = params.graph.size * nodeSize ∧
        ∀ node ∈ pieces nodeSize replica, Bytes.toNatLE node < modulus) ∧
      1 ≤ params.plan.layers) := by
  refine ⟨⟨?_, ?_⟩, ?_, exists_extract_iff⟩
  · intro h
    obtain ⟨data, hdata⟩ := h
    obtain ⟨hlen, nodes, hnodes, -⟩ := extract_eq_ok_iff_mapM.mp hdata
    exact ⟨hlen, fun v hv => Result.exists_of_mapM hnodes (List.mem_range.mpr hv)⟩
  · intro h
    obtain ⟨hlen, heach⟩ := h
    obtain ⟨nodes, hnodes⟩ := Result.exists_mapM fun v hv => heach v (List.mem_range.mp hv)
    exact ⟨_, extract_eq_ok_iff_mapM.mpr ⟨hlen, nodes, hnodes, rfl⟩⟩
  · intro data hdata
    obtain ⟨-, nodes, hnodes, hconcat⟩ := extract_eq_ok_iff_mapM.mp hdata
    exact ⟨nodes, Result.mapM_eq_ok_iff.mp hnodes, hconcat.symm⟩

/-- The replica of the small sector is extracted node by node to its data. -/
theorem sample_extract_agrees : ∃ params result nodes,
    Params.ofSetup sampleSettings sampleShape .sha256 sampleSetup = .ok params ∧
      extract params .zero result = .ok sampleData ∧
      List.Forall₂ (fun v node => extractNode params .zero result v = .ok node)
        (List.range params.graph.size) nodes ∧ sampleData = nodes.flatMap Element.bytes := by
  obtain ⟨params, nodes, commitment, w, replica, hparams, -, hconcat, h⟩ :=
    exists_sampleReplicated
  have hextract : extract params .zero (HashFamily.concatBytes replica) = .ok sampleData :=
    extract_eq_ok_iff.mpr ⟨replica, w.layers, nodes, rfl, hconcat, h.extracted⟩
  obtain ⟨-, hnodes, -⟩ :=
    extract_agrees_with_extractNode params .zero (HashFamily.concatBytes replica)
  obtain ⟨nodes, heach, hdata⟩ := hnodes _ hextract
  exact ⟨params, _, nodes, hparams, hextract, heach, hdata⟩

/-! ## Nodes behind the last one -/

/-- A node that cannot be read is not extracted, and the failure is that of the read. -/
theorem extractNode_of_error {data : Bytes} {node : Nat} {failure : Failure}
    (h : Data.nodeAt data node = .error failure) :
    extractNode params replicaId data node = .error failure := by
  unfold extractNode
  rw [h]
  rfl

/-- A node of data is read exactly if it ends inside the data and its end is a word; where the
length of the data is a word, so is every end inside it. If the node ends behind the data the read
is refused, and if its end is no word the read aborts. So it is with the extraction of a node that a
replica of full size does not have. -/
theorem nodeAt_extractNode_outcome (data : Bytes) (node : Nat) :
    (∀ bytes, Data.nodeAt data node = .ok bytes ↔
      32 * (node + 1) < 2 ^ 64 ∧ 32 * (node + 1) ≤ data.length ∧
        bytes = (data.drop (32 * node)).take 32) ∧
    (32 * (node + 1) < 2 ^ 64 → data.length < 32 * (node + 1) →
      Data.nodeAt data node = refuse (.outOfBounds (32 * (node + 1)) data.length)) ∧
    (2 ^ 64 ≤ 32 * (node + 1) → Data.nodeAt data node = abort .overflow) ∧
    ∀ params replicaId, data.length = params.graph.size * 32 → params.graph.size ≤ node →
      (32 * (node + 1) < 2 ^ 64 → extractNode params replicaId data node
        = refuse (.outOfBounds (32 * (node + 1)) data.length)) ∧
      (2 ^ 64 ≤ 32 * (node + 1) → extractNode params replicaId data node = abort .overflow) := by
  have hstart : 32 * node = node * nodeSize := Nat.mul_comm 32 node
  have hstop : 32 * (node + 1) = node * nodeSize + nodeSize := by
    rw [Nat.mul_comm, Nat.succ_mul]
    rfl
  have hlimit : 2 ^ 64 = Word.limit := rfl
  rw [hstart, hstop, hlimit]
  refine ⟨?_, Data.nodeAt_of_short, Data.nodeAt_of_overflow data, ?_⟩
  · intro bytes
    rw [Data.nodeAt_eq_ok_iff, eq_comm (b := bytes)]
    rfl
  · intro params replicaId hlen hnode
    have hshort : data.length < node * nodeSize + nodeSize := by
      unfold nodeSize
      omega
    exact ⟨fun hword => extractNode_of_error (Data.nodeAt_of_short hword hshort),
      fun hword => extractNode_of_error (Data.nodeAt_of_overflow data hword)⟩

/-- The last of the sixteen nodes of the small sector is read; the one behind it is refused. -/
theorem nodeAt_extractNode_sixteen : ∃ params,
    Params.ofSetup sampleSettings sampleShape .sha256 sampleSetup = .ok params ∧
      (∃ bytes, Data.nodeAt sampleData 15 = .ok bytes) ∧
      Data.nodeAt sampleData 16 = refuse (.outOfBounds 544 512) ∧
      extractNode params .zero sampleData 16 = refuse (.outOfBounds 544 512) := by
  obtain ⟨params, hparams⟩ := exists_sampleParams
  have hsize : params.graph.size = 16 := (Params.madeFrom_of_ofSetup hparams).size_eq
  have hlen : sampleData.length = 512 := List.length_replicate
  obtain ⟨hread, -⟩ := nodeAt_extractNode_outcome sampleData 15
  obtain ⟨-, hrefused, -, hextract⟩ := nodeAt_extractNode_outcome sampleData 16
  rw [hlen] at hread hrefused hextract
  obtain ⟨hbehind, -⟩ := hextract params .zero (by omega) (by omega)
  exact ⟨params, hparams, ⟨_, (hread _).mpr ⟨by decide, by decide, rfl⟩⟩,
    hrefused (by decide) (by decide), hbehind (by decide)⟩

/-- Not every node behind the last one is refused: node `2 ^ 59 - 1` has an end that is no word, and
reading it aborts. -/
theorem nodeAt_extractNode_overflow : ∃ params,
    Params.ofSetup sampleSettings sampleShape .sha256 sampleSetup = .ok params ∧
      sampleData.length = params.graph.size * 32 ∧ params.graph.size ≤ 2 ^ 59 - 1 ∧
      2 ^ 59 - 1 < Word.limit ∧ sampleData.length < 32 * (2 ^ 59 - 1 + 1) ∧
      Data.nodeAt sampleData (2 ^ 59 - 1) = abort .overflow ∧
      extractNode params .zero sampleData (2 ^ 59 - 1) = abort .overflow := by
  obtain ⟨params, hparams⟩ := exists_sampleParams
  have hsize : params.graph.size = 16 := (Params.madeFrom_of_ofSetup hparams).size_eq
  have hlen : sampleData.length = 512 := List.length_replicate
  have hread : Data.nodeAt sampleData (2 ^ 59 - 1) = abort .overflow :=
    Data.nodeAt_of_overflow sampleData (by decide)
  exact ⟨params, hparams, by omega, by omega, by decide, by omega, hread,
    extractNode_of_error hread⟩

end Replication.Replica
