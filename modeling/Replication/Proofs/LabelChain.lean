import Replication.Proofs.Graph.Construction
import Replication.Proofs.Layers

/-!
# The chain of labels

Labels are written in place, over a buffer that still holds entries from before. As the base
parents of a node lie in front of it, a node reads only labels that are already finished. So a
layer is determined by the equation that its labels satisfy, and what the buffer held makes no
difference.
-/

namespace Replication

namespace Label

variable {g : LayerGraph} {replicaId : Element} {below : Option Layer} {layer : UInt32}

/-- There is only one layer each of whose labels is the one that the labels of its node's parents
give. -/
theorem Labelled.unique {labels labels' : Layer} (hbelow : FullBelow g below)
    (h : Labelled g replicaId below layer labels)
    (h' : Labelled g replicaId below layer labels') : labels = labels' := by
  -- by induction along the nodes: the labels in front of a node determine its own
  have hentry : ∀ node, node < g.size → labels[node]? = labels'[node]? := by
    intro node
    induction node using Nat.strongRecOn with
    | ind node ih =>
      intro hnode
      obtain ⟨parents, hparents, hget⟩ := h.written node hnode
      obtain ⟨parents', hparents', hget'⟩ := h'.written node hnode
      have hsame := parentLabels_congr hnode h.size_eq h'.size_eq hbelow
        fun i hi => ih i hi (by omega)
      rw [hparents, hparents'] at hsame
      cases hsame
      rw [hget, hget']
  have hsize := h.size_eq
  have hsize' := h'.size_eq
  apply Array.ext_getElem?
  intro i
  by_cases hi : i < g.size
  · exact hentry i hi
  · rw [Array.getElem?_eq_none (by omega), Array.getElem?_eq_none (by omega)]

/-- Over a layer that is not full no layer is made, whatever the buffer holds. -/
theorem createLayer_eq_error {failure : Failure} {buffer : Layer} (hfull : buffer.size = g.size)
    (h : requireFullBelow g below = .error failure) :
    createLayer g replicaId below layer buffer = .error failure := by
  have hsize := g.two_le_size
  obtain ⟨rest, hrest⟩ : ∃ rest, g.size = rest + 1 := ⟨g.size - 1, by omega⟩
  -- the first node is refused already
  have hwrite : writeLabel g replicaId below layer 0 buffer = .error failure := by
    unfold writeLabel requireFull
    rw [Result.require_of hfull, Result.ok_bind, h]
    rfl
  unfold createLayer
  rw [hrest, createFrom, hwrite]
  rfl

/-- The outcome of labelling a layer does not depend on what the buffer held. -/
theorem exists_outcome (g : LayerGraph) (replicaId : Element) (below : Option Layer)
    (layer : UInt32) :
    ∃ outcome : Result Layer, (FullBelow g below → ∃ labels, outcome = .ok labels) ∧
      ∀ buffer : Layer, buffer.size = g.size →
        createLayer g replicaId below layer buffer = outcome := by
  rcases hrequire : requireFullBelow g below with failure | u
  · refine ⟨.error failure, ?_, fun buffer hfull => createLayer_eq_error hfull hrequire⟩
    intro hbelow
    have hok := (requireFullBelow_eq_ok_iff (u := ())).mpr hbelow
    rw [hrequire] at hok
    cases hok
  · have hbelow := requireFullBelow_eq_ok_iff.mp hrequire
    have hzeros : (Array.replicate g.size Element.zero).size = g.size := Array.size_replicate
    obtain ⟨labels, hlabels⟩ := exists_createLayer replicaId layer hzeros hbelow
    refine ⟨.ok labels, fun _ => ⟨labels, rfl⟩, ?_⟩
    intro buffer hfull
    obtain ⟨labels', hlabels'⟩ := exists_createLayer replicaId layer hfull hbelow
    rw [hlabels', (labelled_of_createLayer hfull hlabels').unique hbelow
      (labelled_of_createLayer hzeros hlabels)]

/-- What labelling the nodes one by one leaves in a buffer. -/
theorem foldl_create {count node : Nat} {labels final : Layer}
    (h : createFrom g replicaId below layer count node labels = .ok final) :
    (List.range' node count).foldl
      (fun held i => (create g replicaId below layer i held).2) labels = final := by
  induction count generalizing node labels with
  | zero =>
    cases h
    rfl
  | succ count ih =>
    obtain ⟨labels', hwrite, hrest⟩ := Result.bind_eq_ok h
    have hheld : (create g replicaId below layer node labels).2 = labels' := by
      rw [create, hwrite]
    rw [List.range'_succ, List.foldl_cons, hheld]
    exact ih hrest

end Label

namespace Layers

/-- Generating layers gives as many full layers as asked for, and in the finished layers every
label is the hash of the labels of its node's parents, from the second layer on of those in the
layer below too. Labelling a layer in place, over a given layer below or none, has the same
outcome whatever labels the buffer held before. -/
theorem exists_chained (g : LayerGraph) (replicaId : Element) {count : Nat}
    (hcount : count < 2 ^ 32) :
    (∃ layers, generate g count replicaId = .ok layers ∧ layers.count = count ∧
      ∀ number, 1 ≤ number → number ≤ count → number.toUInt32.toNat = number ∧
        layers.layer number = .ok (layers.labelsOf number) ∧
        (layers.labelsOf number).size = g.size ∧
        ∀ node < g.size, ∃ parents,
          Label.parentLabels g node (layers.labelsOf number)
              (if number = 1 then none else some (layers.labelsOf (number - 1)))
            = .ok parents ∧
          layers.label number node
            = .ok (Label.hash replicaId number.toUInt32 node.toUInt64 parents)) ∧
    ∀ below layer, ∃ outcome : Result Layer,
      (Label.FullBelow g below → ∃ labels, outcome = .ok labels) ∧
      ∀ buffer : Layer, buffer.size = g.size →
        Label.createLayer g replicaId below layer buffer = outcome ∧
        ∀ labels, outcome = .ok labels → (List.range g.size).foldl
          (fun held node => (Label.create g replicaId below layer node held).2) buffer
            = labels := by
  refine ⟨?_, ?_⟩
  · obtain ⟨layers, hlayers⟩ := exists_generate g count replicaId
    have hgenerated := generated_of_generate hlayers
    refine ⟨layers, hlayers, hgenerated.count_eq, ?_⟩
    intro number hpos hle
    have hlayer := hgenerated.layer_eq hpos hle
    have hsize := hgenerated.size_labelsOf hpos hle
    have hword : number.toUInt32.toNat = number := by
      rw [Nat.toUInt32_eq, UInt32.toNat_ofNat']
      exact Nat.mod_eq_of_lt (by omega)
    refine ⟨hword, hlayer, hsize, ?_⟩
    intro node hnode
    obtain ⟨parents, hparents, hentry⟩ := (hgenerated.labelled number hpos hle).getD_eq hnode
    -- nothing lies below the first layer
    have hbelow : layers.below number
        = if number = 1 then none else some (layers.labelsOf (number - 1)) := by
      by_cases hone : number = 1
      · rw [below, if_pos hone, if_pos (by omega)]
      · rw [below, if_neg hone, if_neg (by omega)]
    refine ⟨parents, hbelow ▸ hparents, ?_⟩
    rw [label, hlayer, Result.ok_bind, Label.lookup_of_lt (by omega), hentry]
  · intro below layer
    -- a pass gives the same whatever the buffer held, and it is the fold of its steps
    obtain ⟨outcome, hfull, hsame⟩ := Label.exists_outcome g replicaId below layer
    refine ⟨outcome, hfull, ?_⟩
    intro buffer hbuffer
    have houtcome := hsame buffer hbuffer
    refine ⟨houtcome, ?_⟩
    rintro labels rfl
    rw [List.range_eq_range']
    exact Label.foldl_create houtcome

/-- Three layers over a graph of sixteen nodes with expander parents. -/
theorem sample_exists_chained : 3 < 2 ^ 32 ∧ ∃ g, LayerGraph.new 16 6 8 .zero = .ok g ∧
    (∃ layers, generate g 3 .zero = .ok layers ∧ layers.count = 3 ∧
      ∀ node < g.size, ∃ parents,
        Label.parentLabels g node (layers.labelsOf 3) (some (layers.labelsOf 2)) = .ok parents ∧
        layers.label 3 node = .ok (Label.hash .zero 3 node.toUInt64 parents)) ∧
    ∃ labels, ∀ buffer : Layer, buffer.size = g.size →
      Label.createLayer g .zero none 1 buffer = .ok labels := by
  obtain ⟨g, hg⟩ := LayerGraph.exists_new .zero (show 2 ≤ 6 by decide)
    (show 6 + 8 ≤ hashedParents by decide) (show 2 ≤ 16 by decide) (by decide)
  obtain ⟨⟨layers, hlayers, hcount, hchained⟩, hpass⟩ :=
    exists_chained g .zero (show 3 < 2 ^ 32 by decide)
  refine ⟨by decide, g, hg, ⟨layers, hlayers, hcount, ?_⟩, ?_⟩
  · obtain ⟨-, -, -, hlabels⟩ := hchained 3 (by decide) (by decide)
    exact hlabels
  · obtain ⟨outcome, hfull, hsame⟩ := hpass none 1
    obtain ⟨labels, rfl⟩ := hfull fun labels h => by cases h
    exact ⟨labels, fun buffer hbuffer => (hsame buffer hbuffer).1⟩

end Layers

end Replication
