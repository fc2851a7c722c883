import Mathlib.Data.List.Nodup
import Replication.Proofs.Graph.Construction

/-!
# The expander is regular

The slots of all nodes are numbered node by node and permuted among themselves, and the parent in
a slot is the node that owns the slot's place. So all parents of all nodes are all nodes, each as
often as it has slots (`Expander.perm_flatMap_parents`). Main statement: every node of a layer
graph has its expander parents, and is the expander parent of as many slots as it has itself
(`expander_regular`).
-/

namespace Replication

/-! ## Numbers in groups -/

section Groups

variable (count width : Nat)

/-- The numbers below a product in groups of one width. -/
theorem range_mul_eq_flatMap : List.range (count * width)
    = (List.range count).flatMap fun i => (List.range width).map (i * width + ·) := by
  induction count with
  | zero => simp
  | succ count ih =>
    rw [Nat.succ_mul, List.range_add, ih, List.range_succ, List.flatMap_append]
    simp

/-- The numbers below a product, each replaced by the number of its group. -/
theorem map_div_range_mul (hwidth : 0 < width) : (List.range (count * width)).map (· / width)
    = (List.range count).flatMap (List.replicate width) := by
  rw [range_mul_eq_flatMap, List.map_flatMap]
  congr 1
  funext i
  have hgroup : ∀ j ∈ List.range width, ((· / width) ∘ (i * width + ·)) j = i := by
    intro j hj
    show (i * width + j) / width = i
    rw [Nat.mul_comm, Nat.mul_add_div hwidth, Nat.div_eq_of_lt (List.mem_range.mp hj),
      Nat.add_zero]
  rw [List.map_map, List.map_congr_left hgroup, List.map_const', List.length_range]

/-- In equal tiles laid side by side each number stands as often as a tile is wide. -/
theorem count_flatMap_replicate {i : Nat} (hi : i < count) :
    ((List.range count).flatMap (List.replicate width)).count i = width := by
  -- a group counts if it is the one asked for
  have hall : ∀ count, ((List.range count).flatMap (List.replicate width)).count i
      = if i < count then width else 0 := by
    intro count
    induction count with
    | zero => simp
    | succ count ih =>
      rw [List.range_succ, List.flatMap_append, List.count_append, ih, List.flatMap_singleton,
        List.count_replicate]
      by_cases heq : count = i
      · simp [heq]
      · have hlt : i < count + 1 ↔ i < count := by omega
        simp [heq, hlt]
  rw [hall, if_pos hi]

end Groups

/-! ## The places of all slots -/

/-- The places of the indices below the size are these indices in another order. -/
theorem Feistel.perm_map_permute {layout : Feistel.Layout} (hl : layout.Balanced)
    (keys : List UInt64) {size : Nat} (hsize : size ≤ layout.box) :
    ((List.range size).map (Feistel.permute layout keys size)).Perm (List.range size) := by
  have hinjective : ∀ i ∈ List.range size, ∀ j ∈ List.range size,
      Feistel.permute layout keys size i = Feistel.permute layout keys size j → i = j := by
    intro i hi j hj heq
    rw [← Feistel.unpermute_permute hl keys hsize (List.mem_range.mp hi), heq,
      Feistel.unpermute_permute hl keys hsize (List.mem_range.mp hj)]
  have hnodup := List.Nodup.map_on hinjective List.nodup_range
  rw [List.perm_ext_iff_of_nodup hnodup List.nodup_range]
  intro place
  rw [List.mem_map, List.mem_range]
  refine ⟨?_, ?_⟩
  · intro h
    obtain ⟨index, hindex, rfl⟩ := h
    exact Feistel.permute_lt hl keys hsize (List.mem_range.mp hindex)
  · intro hplace
    exact ⟨Feistel.unpermute layout keys size place,
      List.mem_range.mpr (Feistel.unpermute_lt hl keys hsize hplace),
      Feistel.permute_unpermute hl keys hsize hplace⟩

namespace Expander

variable {x : Expander} {nodes : Nat}

/-- The parents of all nodes are the owners of the places of all slots. -/
theorem flatMap_parents (hlayout : Feistel.Layout.forSize (x.degree * nodes) = .ok x.layout)
    (hnodes : nodes < Word.halfLimit) :
    (List.range nodes).flatMap (x.parents nodes)
      = ((List.range (nodes * x.degree)).map
          (Feistel.permute x.layout x.keys (nodes * x.degree))).map (· / x.degree) := by
  obtain ⟨hbalanced, hsize⟩ := Feistel.Layout.balanced_of_forSize hlayout
  rw [Nat.mul_comm] at hsize
  -- a place is a slot of a node, and nodes have thirty-two bits
  have howner : ∀ slot ∈ List.range (nodes * x.degree),
      ((· / x.degree) ∘ Feistel.permute x.layout x.keys (nodes * x.degree)) slot
        = Feistel.permute x.layout x.keys (nodes * x.degree) slot / x.degree
          % Word.halfLimit := by
    intro slot hslot
    have hplace := Feistel.permute_lt hbalanced x.keys hsize (List.mem_range.mp hslot)
    have howner := (Nat.div_lt_iff_lt_mul x.degree_pos).mpr hplace
    exact (Nat.mod_eq_of_lt (Nat.lt_trans howner hnodes)).symm
  rw [List.map_map, List.map_congr_left howner, range_mul_eq_flatMap, List.map_flatMap]
  simp only [List.map_map]
  rfl

/-- Each node is a parent as often as it has slots. -/
theorem perm_flatMap_parents
    (hlayout : Feistel.Layout.forSize (x.degree * nodes) = .ok x.layout)
    (hnodes : nodes < Word.halfLimit) :
    ((List.range nodes).flatMap (x.parents nodes)).Perm
      ((List.range nodes).flatMap (List.replicate x.degree)) := by
  obtain ⟨hbalanced, hsize⟩ := Feistel.Layout.balanced_of_forSize hlayout
  rw [Nat.mul_comm] at hsize
  rw [flatMap_parents hlayout hnodes, ← map_div_range_mul nodes x.degree x.degree_pos]
  exact (Feistel.perm_map_permute hbalanced x.keys hsize).map _

end Expander

namespace LayerGraph

variable {g : LayerGraph} {node : Nat}

/-- A request for the expander parents of a node of the graph fills its buffer. -/
theorem fillExpanderParents_eq (hnode : node < g.size) {buffer : List Nat}
    (hbuffer : buffer.length = g.expansionDegree) :
    g.fillExpanderParents node buffer = (.ok (), g.expanderParents node) := by
  obtain ⟨base, expander, hparents⟩ := g.exists_combined hnode
  have hlen : expander.length = buffer.length := hparents.length_expander.trans hbuffer.symm
  have hdrop : buffer.drop expander.length = [] := by
    rw [hlen, List.drop_length]
  unfold fillExpanderParents
  rw [hbuffer, checkNode_of_lt hnode, Result.ok_bind, hparents.expanderSlotsOf_eq hnode,
    Buffer.fillWith, Buffer.fill_map_ok (Nat.le_of_eq hlen), hdrop, List.append_nil,
    hparents.expander_eq]

/-- The expander parents are nodes of the graph. -/
theorem expanderParents_lt (hnode : node < g.size) :
    ∀ parent ∈ g.expanderParents node, parent < g.size := by
  obtain ⟨base, expander, hparents⟩ := g.exists_combined hnode
  rw [← hparents.expander_eq]
  exact hparents.expander_lt

/-- Every node is an expander parent exactly as often as the expansion degree. -/
theorem count_expanderParents (g : LayerGraph) {parent : Nat} (hparent : parent < g.size) :
    ((List.range g.size).flatMap g.expanderParents).count parent = g.expansionDegree := by
  rcases hx : g.expander with _ | x
  · have hnone : g.expanderParents = fun _ => [] := by
      funext node
      rw [expanderParents, hx]
      rfl
    rw [hnone, expansionDegree, hx, List.flatMap_eq_nil_iff.mpr fun _ _ => rfl]
    rfl
  · have hsome : g.expanderParents = x.parents g.size := by
      funext node
      rw [expanderParents, hx]
      rfl
    have hperm : ((List.range g.size).flatMap (x.parents g.size)).Perm _ :=
      Expander.perm_flatMap_parents (g.layout_eq x hx) g.size_lt
    rw [hsome, expansionDegree, hx, hperm.count_eq]
    exact count_flatMap_replicate g.size x.degree hparent

/-- Every node of a graph gets as many expander parents as the expansion degree says, all of them
nodes, and over all nodes and slots every node is a parent as often as that. -/
theorem expander_regular (g : LayerGraph) :
    ∃ parents : Nat → List Nat,
      (∀ node < g.size, ∀ buffer, buffer.length = g.expansionDegree →
        g.fillExpanderParents node buffer = (.ok (), parents node) ∧
          (parents node).length = g.expansionDegree ∧ ∀ parent ∈ parents node, parent < g.size) ∧
      ∀ parent < g.size,
        ((List.range g.size).flatMap parents).count parent = g.expansionDegree := by
  refine ⟨g.expanderParents, ?_, fun parent hparent => g.count_expanderParents hparent⟩
  intro node hnode buffer hbuffer
  have hfill := fillExpanderParents_eq hnode hbuffer
  obtain ⟨base, expander, hparents⟩ := g.exists_combined hnode
  refine ⟨hfill, ?_, expanderParents_lt hnode⟩
  rw [← hparents.expander_eq, hparents.length_expander]

/-- Five nodes with three expander parents each: fifteen slots, which is no power of four. -/
theorem expander_regular_five : ∃ g, new 5 2 3 .zero = .ok g ∧ g.size = 5 ∧
    ∃ parents : Nat → List Nat,
      (∀ node < g.size, ∀ buffer, buffer.length = g.expansionDegree →
        g.fillExpanderParents node buffer = (.ok (), parents node)) ∧
      ∀ parent < g.size,
        ((List.range g.size).flatMap parents).count parent = g.expansionDegree := by
  have hexists : ∃ g, new 5 2 3 .zero = .ok g :=
    exists_new .zero (by decide) (by decide) (by decide) (by decide)
  obtain ⟨g, hg⟩ := hexists
  obtain ⟨parents, hfill, hcount⟩ := expander_regular g
  exact ⟨g, hg, size_of_new hg, parents,
    fun node hnode buffer hbuffer => (hfill node hnode buffer hbuffer).1, hcount⟩

end LayerGraph

end Replication
