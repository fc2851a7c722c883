import Replication.Label
import Replication.Proofs.Elements
import Replication.Proofs.Graph.Parents

/-!
# Labelling a layer

A layer is labelled in place, from the first node to the last. Every label is written once and
read only by nodes behind it, so each label of the finished layer is the one that the labels of
its node's parents give *in the finished layer*. Labelling a layer over a full one never fails.
-/

namespace Replication.Label

variable {g : LayerGraph} {replicaId : Element} {below : Option Layer} {layer : UInt32}
  {node : Nat} {labels : Layer}

/-- A label is canonical, whatever it is the hash of. -/
theorem isCanonical_hash (replicaId : Element) (layer : UInt32) (node : UInt64)
    (parents : List Element) : (hash replicaId layer node parents).IsCanonical :=
  Element.isCanonical_truncate _

theorem lookup_of_lt {position : Nat} (h : position < labels.size) :
    lookup labels position = .ok (labels.getD position .zero) := by
  unfold lookup
  rw [Array.getElem?_eq_getElem h, Array.getD_eq_getD_getElem?, Array.getElem?_eq_getElem h]
  rfl

/-! ## The labels of the parents of a node -/

/-- The layer below is full, if there is one. -/
def FullBelow (g : LayerGraph) (below : Option Layer) : Prop :=
  ∀ labels ∈ below, labels.size = g.size

/-- The labels of the given base parents in a layer and, if there is a layer below, of the given
expander parents in that one. -/
def entriesAt (labels : Layer) (below : Option Layer) (base expander : List Nat) :
    List Element :=
  base.map (labels.getD · .zero) ++
    match below with
    | some below => expander.map (below.getD · .zero)
    | none => []

/-- The check of the layer below passes exactly if that layer is absent or full. -/
theorem requireFullBelow_eq_ok_iff {u : Unit} :
    requireFullBelow g below = .ok u ↔ FullBelow g below := by
  rcases below with _ | below
  · simp [requireFullBelow, FullBelow]
  · simp [requireFullBelow, FullBelow, requireFull, Result.require_eq_ok_iff]

/-- In full layers every parent has a label. -/
theorem parentLabels_eq {base expander : List Nat} (h : g.Parents node base expander)
    (hnode : node < g.size) (hzero : node ≠ 0) (hfull : labels.size = g.size)
    (hbelow : FullBelow g below) :
    parentLabels g node labels below = .ok (entriesAt labels below base expander) := by
  have hbase : base.mapM (lookup labels) = .ok (base.map (labels.getD · .zero)) := by
    apply Result.mapM_eq_ok_map
    intro parent hparent
    have hle := h.base_le parent hparent
    exact lookup_of_lt (by omega)
  unfold parentLabels
  rw [if_neg hzero]
  rcases below with _ | below
  · show g.baseParents node >>= _ = _
    rw [h.baseParents_eq hnode, Result.ok_bind, hbase, entriesAt, List.append_nil]
  · have hsize : below.size = g.size := hbelow below rfl
    have hexpander :
        expander.mapM (lookup below) = .ok (expander.map (below.getD · .zero)) := by
      apply Result.mapM_eq_ok_map
      intro parent hparent
      have hlt := h.expander_lt parent hparent
      exact lookup_of_lt (by omega)
    show g.parents node >>= _ = _
    rw [h.parents_eq hnode, Result.ok_bind, h.take_eq, h.drop_eq, hbase, Result.ok_bind,
      hexpander, Result.ok_bind, Result.pure_eq_ok, entriesAt]

/-- Node zero reads no labels at all. -/
theorem parentLabels_zero : parentLabels g 0 labels below = .ok [] := by
  unfold parentLabels
  rw [if_pos rfl]

/-- With full layers every node finds the labels of its parents. -/
theorem exists_parentLabels (hnode : node < g.size) (hfull : labels.size = g.size)
    (hbelow : FullBelow g below) : ∃ parents, parentLabels g node labels below = .ok parents := by
  by_cases hzero : node = 0
  · subst hzero
    exact ⟨[], parentLabels_zero⟩
  · obtain ⟨base, expander, h⟩ := g.exists_combined hnode
    exact ⟨_, parentLabels_eq h hnode hzero hfull hbelow⟩

/-- Two layers hold the same entries at the given base parents, and so do the layers below them, if
there are any, at the given expander parents. -/
structure SameEntries (base expander : List Nat) (labels labels' : Layer)
    (below below' : Option Layer) : Prop where
  base_eq : ∀ parent ∈ base, labels[parent]? = labels'[parent]?
  below_eq : Option.Rel (fun under under' : Layer =>
    ∀ parent ∈ expander, under[parent]? = under'[parent]?) below below'

theorem map_getD_congr {parents : List Nat} {held held' : Layer}
    (h : ∀ parent ∈ parents, held[parent]? = held'[parent]?) :
    parents.map (held.getD · .zero) = parents.map (held'.getD · .zero) := by
  apply List.map_congr_left
  intro parent hparent
  rw [Array.getD_eq_getD_getElem?, Array.getD_eq_getD_getElem?, h parent hparent]

/-- Two pairs of layers that agree where a node reads give the same entries. -/
theorem SameEntries.entriesAt_eq {base expander : List Nat} {labels' : Layer}
    {below' : Option Layer} (h : SameEntries base expander labels labels' below below') :
    entriesAt labels below base expander = entriesAt labels' below' base expander := by
  obtain ⟨hbase, hbelow⟩ := h
  unfold entriesAt
  rw [map_getD_congr hbase]
  rcases hbelow with hunder | _
  · exact congrArg (_ ++ ·) (map_getD_congr hunder)
  · rfl

/-- Where the entries at the parents are the same, so are the labels collected from them. Node zero
collects none. -/
theorem parentLabels_eq_of_sameEntries {base expander : List Nat} {labels' : Layer}
    {below' : Option Layer} (hparents : g.Parents node base expander) (hnode : node < g.size)
    (hfull : labels.size = g.size) (hfull' : labels'.size = g.size) (hbelow : FullBelow g below)
    (hbelow' : FullBelow g below')
    (hsame : node ≠ 0 → SameEntries base expander labels labels' below below') :
    parentLabels g node labels below = parentLabels g node labels' below' := by
  by_cases hzero : node = 0
  · subst hzero
    rw [parentLabels_zero, parentLabels_zero]
  · rw [parentLabels_eq hparents hnode hzero hfull hbelow,
      parentLabels_eq hparents hnode hzero hfull' hbelow', (hsame hzero).entriesAt_eq]

/-- The labels of a node's parents are read in front of the node. -/
theorem parentLabels_congr {labels' : Layer} (hnode : node < g.size)
    (hfull : labels.size = g.size) (hfull' : labels'.size = g.size) (hbelow : FullBelow g below)
    (h : ∀ i < node, labels[i]? = labels'[i]?) :
    parentLabels g node labels below = parentLabels g node labels' below := by
  obtain ⟨base, expander, hparents⟩ := g.exists_combined hnode
  apply parentLabels_eq_of_sameEntries hparents hnode hfull hfull' hbelow hbelow
  intro hzero
  have hself : Option.Rel (fun under under' : Layer =>
      ∀ parent ∈ expander, under[parent]? = under'[parent]?) below below := by
    rcases below with _ | under
    · exact .none
    · exact .some fun _ _ => rfl
  refine ⟨?_, hself⟩
  intro parent hparent
  have hle := hparents.base_le parent hparent
  exact h parent (by omega)

/-! ## Writing one label -/

/-- The entry of a node is the label that the labels of its parents give. -/
def Written (g : LayerGraph) (replicaId : Element) (below : Option Layer) (layer : UInt32)
    (labels : Layer) (node : Nat) : Prop :=
  ∃ parents, parentLabels g node labels below = .ok parents ∧
    labels[node]? = some (hash replicaId layer node.toUInt64 parents)

/-- What it takes for a label to be written, and the one entry that is written. -/
theorem writeLabel_eq_ok_iff {labels' : Layer} :
    writeLabel g replicaId below layer node labels = .ok labels' ↔
      labels.size = g.size ∧ FullBelow g below ∧ node < g.size ∧
        ∃ parents, parentLabels g node labels below = .ok parents ∧
          labels' = labels.setIfInBounds node (hash replicaId layer node.toUInt64 parents) := by
  unfold writeLabel requireFull write
  simp only [Result.bind_eq_ok_iff, Result.require_eq_ok_iff, requireFullBelow_eq_ok_iff]
  constructor
  · intro h
    obtain ⟨_, hfull, _, hbelow, parents, hparents, h⟩ := h
    split at h
    · rename_i hnode
      cases h
      refine ⟨hfull, hbelow, by omega, parents, hparents, ?_⟩
      rw [Array.setIfInBounds_def, dif_pos hnode]
    · cases h
  · intro h
    obtain ⟨hfull, hbelow, hnode, parents, hparents, rfl⟩ := h
    refine ⟨(), hfull, (), hbelow, parents, hparents, ?_⟩
    rw [Array.setIfInBounds_def, dif_pos (by omega), dif_pos (by omega)]

/-- With full layers the label of every node can be written. -/
theorem exists_writeLabel (replicaId : Element) (layer : UInt32) (hnode : node < g.size)
    (hfull : labels.size = g.size) (hbelow : FullBelow g below) :
    ∃ labels', writeLabel g replicaId below layer node labels = .ok labels' := by
  obtain ⟨parents, hparents⟩ := exists_parentLabels hnode hfull hbelow
  exact ⟨_, writeLabel_eq_ok_iff.mpr ⟨hfull, hbelow, hnode, parents, hparents, rfl⟩⟩

/-! ## A pass over the nodes -/

/-- What a pass over `count` nodes, from `node` on, leaves behind. -/
structure Passed (g : LayerGraph) (replicaId : Element) (below : Option Layer) (layer : UInt32)
    (count node : Nat) (labels final : Layer) : Prop where
  size_eq : final.size = labels.size
  frame : ∀ i < node, final[i]? = labels[i]?
  written : ∀ i, node ≤ i → i < node + count → Written g replicaId below layer final i

/-- A pass leaves the entries in front of it as they are and writes all others. The induction is on
the number of nodes; the first label is read off the finished layer because the rest of the pass
no longer touches it or anything it was made from. -/
theorem passed_of_createFrom {count : Nat} {final : Layer} (hfull : labels.size = g.size)
    (h : createFrom g replicaId below layer count node labels = .ok final) :
    Passed g replicaId below layer count node labels final := by
  induction count generalizing node labels with
  | zero =>
    cases h
    refine ⟨rfl, fun _ _ => rfl, ?_⟩
    intro i hi hi'
    omega
  | succ count ih =>
    obtain ⟨labels', hwrite, hrest⟩ := Result.bind_eq_ok h
    obtain ⟨-, hbelow, hnode, parents, hparents, rfl⟩ := writeLabel_eq_ok_iff.mp hwrite
    have hsize : (labels.setIfInBounds node
        (hash replicaId layer node.toUInt64 parents)).size = labels.size :=
      Array.size_setIfInBounds
    have hpass := ih (by omega) hrest
    have hframe : ∀ i < node, final[i]? = labels[i]? := by
      intro i hi
      rw [hpass.frame i (by omega), Array.getElem?_setIfInBounds_ne (by omega)]
    have hfinal := hpass.size_eq.trans hsize
    refine ⟨hfinal, hframe, ?_⟩
    intro i hi hi'
    -- the label of `node` itself was made from `labels`, which agrees with `final` before `node`
    by_cases heq : i = node
    · subst heq
      refine ⟨parents, ?_, ?_⟩
      · rw [← hparents]
        exact parentLabels_congr hnode (by omega) hfull hbelow hframe
      · rw [hpass.frame i (by omega), Array.getElem?_setIfInBounds_self_of_lt (by omega)]
    · exact hpass.written i (by omega) (by omega)

/-- With full layers a run of labels up to the last node can be written. -/
theorem exists_createFrom (replicaId : Element) (layer : UInt32) {count : Nat}
    (hcount : node + count ≤ g.size) (hfull : labels.size = g.size) (hbelow : FullBelow g below) :
    ∃ final, createFrom g replicaId below layer count node labels = .ok final := by
  induction count generalizing node labels with
  | zero => exact ⟨labels, rfl⟩
  | succ count ih =>
    obtain ⟨labels', hwrite⟩ := exists_writeLabel replicaId layer
      (show node < g.size by omega) hfull hbelow
    have hfull' : labels'.size = g.size := by
      obtain ⟨-, -, -, parents, -, rfl⟩ := writeLabel_eq_ok_iff.mp hwrite
      rw [Array.size_setIfInBounds, hfull]
    have hnext : node + 1 + count ≤ g.size := by omega
    obtain ⟨final, hfinal⟩ := ih hnext hfull'
    refine ⟨final, ?_⟩
    rw [createFrom, hwrite, Result.ok_bind, hfinal]

/-! ## Whole layers -/

/-- A full layer each of whose labels is the one that the labels of its node's parents give. -/
structure Labelled (g : LayerGraph) (replicaId : Element) (below : Option Layer) (layer : UInt32)
    (labels : Layer) : Prop where
  size_eq : labels.size = g.size
  written : ∀ node < g.size, Written g replicaId below layer labels node

/-- A finished layer holds at every node the hash of what the node's parents hold. -/
theorem labelled_of_createLayer {buffer : Layer} (hfull : buffer.size = g.size)
    (h : createLayer g replicaId below layer buffer = .ok labels) :
    Labelled g replicaId below layer labels := by
  have hpass := passed_of_createFrom hfull h
  refine ⟨hpass.size_eq.trans hfull, ?_⟩
  intro node hnode
  exact hpass.written node (Nat.zero_le _) (by omega)

theorem exists_createLayer (replicaId : Element) (layer : UInt32) {buffer : Layer}
    (hfull : buffer.size = g.size) (hbelow : FullBelow g below) :
    ∃ labels, createLayer g replicaId below layer buffer = .ok labels :=
  exists_createFrom replicaId layer (by omega) hfull hbelow

/-- The entry of a labelled layer at a node is the hash of the node's parent labels. -/
theorem Labelled.getD_eq (h : Labelled g replicaId below layer labels) (hnode : node < g.size) :
    ∃ parents, parentLabels g node labels below = .ok parents ∧
      labels.getD node .zero = hash replicaId layer node.toUInt64 parents := by
  obtain ⟨parents, hparents, hget⟩ := h.written node hnode
  refine ⟨parents, hparents, ?_⟩
  rw [Array.getD_eq_getD_getElem?, hget, Option.getD_some]

/-- Every label of a finished layer is canonical. -/
theorem Labelled.isCanonical (h : Labelled g replicaId below layer labels) :
    ∀ e ∈ labels.toList, e.IsCanonical := by
  intro e he
  obtain ⟨node, hnode, rfl⟩ := List.getElem_of_mem he
  rw [Array.length_toList, h.size_eq] at hnode
  obtain ⟨parents, -, hget⟩ := h.written node hnode
  rw [Array.getElem?_eq_getElem (by have := h.size_eq; omega)] at hget
  injection hget with hget
  rw [Array.getElem_toList, hget]
  exact isCanonical_hash _ _ _ _

end Replication.Label
