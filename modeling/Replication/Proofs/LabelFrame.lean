import Replication.Proofs.Graph.Construction
import Replication.Proofs.Label

/-!
# Labelling one node

A node is labelled in place, in a buffer that also holds the labels it is made from. Labelling
fails exactly if a layer has not one entry for every node or the node is none of them; it is then
refused, and the buffer is as it was. Otherwise one entry of the buffer changes. The label written
there is made from the entries at the parents of the node and from nothing else that either layer
holds, the old entry of the node included: the base parents lie in front of it.
-/

namespace Replication.Label

variable {g : LayerGraph} {replicaId : Element} {below : Option Layer} {layer : UInt32}
  {node : Nat} {labels : Layer}

/-! ## Refusals -/

theorem neverAborts_requireFullBelow (g : LayerGraph) (below : Option Layer) :
    Result.NeverAborts (requireFullBelow g below) := by
  rcases below with _ | below
  · exact Result.neverAborts_ok ()
  · exact Result.neverAborts_require _ _

/-- A node behind the last one has no parents. -/
theorem parentLabels_of_le (hnode : g.size ≤ node) :
    parentLabels g node labels below = refuse (.outOfBounds node g.size) := by
  have hsize := g.two_le_size
  unfold parentLabels
  rw [if_neg (by omega)]
  rcases below with _ | below
  · show g.baseParents node >>= _ = _
    rw [LayerGraph.baseParents, LayerGraph.checkNode_of_le hnode, Result.refuse_bind,
      Result.refuse_bind]
  · show g.parents node >>= _ = _
    rw [LayerGraph.parents, LayerGraph.checkNode_of_le hnode, Result.refuse_bind,
      Result.refuse_bind]

theorem neverAborts_writeLabel :
    Result.NeverAborts (writeLabel g replicaId below layer node labels) := by
  unfold writeLabel
  refine (Result.neverAborts_require _ _).bind_of_ok fun _ hfull => ?_
  refine (neverAborts_requireFullBelow g below).bind_of_ok fun _ hbelow => ?_
  have hfull := Result.require_eq_ok_iff.mp hfull
  have hbelow := requireFullBelow_eq_ok_iff.mp hbelow
  -- once the layers are full, only a node behind the last one has no parent labels
  by_cases hnode : node < g.size
  · obtain ⟨parents, hparents⟩ := exists_parentLabels hnode hfull hbelow
    rw [hparents, Result.ok_bind, write, dif_pos (by omega)]
    exact Result.neverAborts_ok _
  · rw [parentLabels_of_le (by omega), Result.refuse_bind]
    exact Result.neverAborts_refuse _

/-! ## The buffer -/

/-- Creating a label succeeds exactly if the label can be written, and leaves it written. -/
theorem create_eq_ok_iff {after : Layer} :
    create g replicaId below layer node labels = (.ok (), after) ↔
      writeLabel g replicaId below layer node labels = .ok after := by
  unfold create
  rcases writeLabel g replicaId below layer node labels with failure | labels'
  · simp
  · simp

/-- A label that cannot be written is refused with the layer left as it was. -/
theorem create_eq_error_iff {failure : Failure} {after : Layer} :
    create g replicaId below layer node labels = (.error failure, after) ↔
      writeLabel g replicaId below layer node labels = .error failure ∧ labels = after := by
  unfold create
  rcases writeLabel g replicaId below layer node labels with failure | labels'
  · simp
  · simp

theorem neverAborts_create :
    Result.NeverAborts (create g replicaId below layer node labels).1 := by
  intro reason h
  rcases hcreate : create g replicaId below layer node labels with ⟨outcome, after⟩
  rw [hcreate] at h
  cases h
  exact neverAborts_writeLabel reason (create_eq_error_iff.mp hcreate).1

/-- What a layer holds once a label was written over the entry of a node. -/
structure Overwritten (node : Nat) (label : Element) (before after : Layer) : Prop where
  size_eq : after.size = before.size
  label_eq : after[node]? = some label
  frame : ∀ i, i ≠ node → after[i]? = before[i]?

/-- Writing one entry overwrites that entry and nothing else. -/
theorem overwritten_setIfInBounds (hnode : node < labels.size) (label : Element) :
    Overwritten node label labels (labels.setIfInBounds node label) where
  size_eq := Array.size_setIfInBounds
  label_eq := Array.getElem?_setIfInBounds_self_of_lt hnode
  frame _ hi := Array.getElem?_setIfInBounds_ne hi.symm

/-! ## What a label is made from -/

/-- Labelling a node never aborts. It succeeds exactly if the layer, and the layer below if there is
one, are full and the node is one of the graph, and otherwise leaves the buffer as it was. Where it
succeeds, the entry of the node becomes the label that the labels of its parents give and no other
entry changes. Any other layers with the same entries at the base parents, all of which lie in front
of the node, and at the expander parents give the same label. -/
theorem create_framed (g : LayerGraph) (replicaId : Element) (below : Option Layer)
    (layer : UInt32) (node : Nat) (labels : Layer) :
    Result.NeverAborts (create g replicaId below layer node labels).1 ∧
    ((∃ after, create g replicaId below layer node labels = (.ok (), after)) ↔
      labels.size = g.size ∧ (∀ under ∈ below, under.size = g.size) ∧ node < g.size) ∧
    (∀ failure after, create g replicaId below layer node labels = (.error failure, after) →
      after = labels) ∧
    ∀ after, create g replicaId below layer node labels = (.ok (), after) →
      (∃ parents, parentLabels g node labels below = .ok parents ∧
        Overwritten node (hash replicaId layer node.toUInt64 parents) labels after) ∧
      ∃ base expander, g.baseParents node = .ok base ∧ g.parents node = .ok (base ++ expander) ∧
        (node ≠ 0 → ∀ parent ∈ base, parent < node) ∧
        ∀ labels' below' after',
          create g replicaId below' layer node labels' = (.ok (), after') →
          (node ≠ 0 → SameEntries base expander labels labels' below below') →
            after'[node]? = after[node]? := by
  refine ⟨neverAborts_create, ?_, ?_, ?_⟩
  · simp only [create_eq_ok_iff]
    constructor
    · intro h
      obtain ⟨after, hwrite⟩ := h
      obtain ⟨hfull, hbelow, hnode, -⟩ := writeLabel_eq_ok_iff.mp hwrite
      exact ⟨hfull, hbelow, hnode⟩
    · intro h
      obtain ⟨hfull, hbelow, hnode⟩ := h
      exact exists_writeLabel replicaId layer hnode hfull hbelow
  · intro failure after hcreate
    exact (create_eq_error_iff.mp hcreate).2.symm
  · intro after hcreate
    obtain ⟨hfull, hbelow, hnode, parents, hparents, rfl⟩ :=
      writeLabel_eq_ok_iff.mp (create_eq_ok_iff.mp hcreate)
    have hwritten := overwritten_setIfInBounds (show node < labels.size by omega)
      (hash replicaId layer node.toUInt64 parents)
    obtain ⟨base, expander, hgraph⟩ := g.exists_combined hnode
    refine ⟨⟨parents, hparents, hwritten⟩, base, expander, hgraph.baseParents_eq hnode,
      hgraph.parents_eq hnode, ?_, ?_⟩
    · intro hzero parent hparent
      have hle := hgraph.base_le parent hparent
      omega
    · intro labels' below' after' hcreate' hsame
      obtain ⟨hfull', hbelow', -, parents', hparents', rfl⟩ :=
        writeLabel_eq_ok_iff.mp (create_eq_ok_iff.mp hcreate')
      -- both labels are hashes of what was collected from the same entries
      have heq := parentLabels_eq_of_sameEntries hgraph hnode hfull hfull' hbelow hbelow' hsame
      rw [hparents, hparents'] at heq
      cases heq
      have hwritten' := overwritten_setIfInBounds (show node < labels'.size by omega)
        (hash replicaId layer node.toUInt64 parents)
      rw [hwritten.label_eq, hwritten'.label_eq]

/-- Five blank entries. -/
def fiveBlanks : Layer := Array.replicate 5 .zero

/-- The same with something else in the last entry. -/
def fiveStale : Layer := fiveBlanks.setIfInBounds 4 (.ofScalar 1)

/-- The last of five nodes gets the same label whatever its entry held. -/
theorem create_framed_last_node : ∃ g after after', LayerGraph.new 5 2 3 .zero = .ok g ∧
    create g .zero (some fiveBlanks) 2 4 fiveBlanks = (.ok (), after) ∧
    create g .zero (some fiveBlanks) 2 4 fiveStale = (.ok (), after') ∧
    fiveStale[4]? ≠ fiveBlanks[4]? ∧ after'[4]? = after[4]? ∧
    ∀ i, i ≠ 4 → after[i]? = fiveBlanks[i]? := by
  have hexists : ∃ g, LayerGraph.new 5 2 3 .zero = .ok g :=
    LayerGraph.exists_new .zero (by decide) (by decide) (by decide) (by decide)
  obtain ⟨g, hg⟩ := hexists
  have hsize : g.size = 5 := LayerGraph.size_of_new hg
  have hbelow : ∀ under ∈ some fiveBlanks, under.size = g.size := by
    intro under hunder
    cases hunder
    exact hsize.symm
  obtain ⟨-, hok, -, hframed⟩ := create_framed g .zero (some fiveBlanks) 2 4 fiveBlanks
  obtain ⟨-, hok', -, -⟩ := create_framed g .zero (some fiveBlanks) 2 4 fiveStale
  obtain ⟨after, hcreate⟩ := hok.mpr ⟨hsize.symm, hbelow, by omega⟩
  obtain ⟨after', hcreate'⟩ := hok'.mpr ⟨hsize.symm, hbelow, by omega⟩
  obtain ⟨⟨_, -, hwritten⟩, base, expander, -, -, hbase, hsame⟩ := hframed after hcreate
  have hentries : 4 ≠ 0 →
      SameEntries base expander fiveBlanks fiveStale (some fiveBlanks) (some fiveBlanks) := by
    intro hzero
    refine ⟨?_, .some fun _ _ => rfl⟩
    intro parent hparent
    have hlt := hbase hzero parent hparent
    exact (Array.getElem?_setIfInBounds_ne (by omega)).symm
  exact ⟨g, after, after', hg, hcreate, hcreate', by decide,
    hsame _ _ _ hcreate' hentries, hwritten.frame⟩

end Replication.Label
