import Replication.Graph.Layer
import Replication.Proofs.Feistel
import Replication.Proofs.Graph.Sampling
import Replication.Proofs.Pieces

/-!
# The parents of a node

Every node of a layer graph has its base parents, none of which lies behind its predecessor,
followed by its expander parents, all of which are nodes. A table of all parents gives the same
answers as the graph it was made from, so the two are never told apart.
-/

namespace Replication

namespace Expander

variable {x : Expander} {nodes : Nat}

/-- The slots of all nodes are permuted among themselves, so a slot is moved to a node. -/
theorem parent_lt (hlayout : Feistel.Layout.forSize (x.degree * nodes) = .ok x.layout)
    {node slot : Nat} (hnode : node < nodes) (hslot : slot < x.degree) :
    x.parent nodes node slot < nodes := by
  obtain ⟨hbalanced, hsize⟩ := Feistel.Layout.balanced_of_forSize hlayout
  rw [Nat.mul_comm] at hsize
  have hindex : node * x.degree + slot < nodes * x.degree := by
    calc node * x.degree + slot < node * x.degree + x.degree := Nat.add_lt_add_left hslot _
      _ = (node + 1) * x.degree := (Nat.succ_mul node x.degree).symm
      _ ≤ nodes * x.degree := Nat.mul_le_mul_right _ hnode
  -- the place of the slot is again a slot, and slots are numbered node by node
  have hplace := Feistel.permute_lt hbalanced x.keys hsize hindex
  have hquot := (Nat.div_lt_iff_lt_mul x.degree_pos).mpr hplace
  exact Nat.lt_of_le_of_lt (Nat.mod_le _ _) hquot

/-- An expander has as many parents for a node as its degree. -/
theorem length_parents (x : Expander) (nodes node : Nat) :
    (x.parents nodes node).length = x.degree := by
  rw [parents, List.length_map, List.length_range]

theorem parents_lt (hlayout : Feistel.Layout.forSize (x.degree * nodes) = .ok x.layout)
    {node : Nat} (hnode : node < nodes) : ∀ parent ∈ x.parents nodes node, parent < nodes := by
  intro parent hparent
  obtain ⟨slot, hslot, rfl⟩ := List.mem_map.mp hparent
  exact parent_lt hlayout hnode (List.mem_range.mp hslot)

end Expander

/-- The lists of the base parents and of the expander parents of a node, one for every slot. -/
structure LayerGraph.Parents (g : LayerGraph) (node : Nat) (base expander : List Nat) :
    Prop where
  sampled_eq : g.base.slotsOf node = .ok (base.map .ok)
  combined_eq : combinedSlots g.base g.expander node = .ok ((base ++ expander).map .ok)
  length_base : base.length = g.baseDegree
  length_expander : expander.length = g.expansionDegree
  base_le : ∀ parent ∈ base, parent ≤ node - 1
  expander_lt : ∀ parent ∈ expander, parent < g.size

namespace LayerGraph

variable {g : LayerGraph} {node : Nat}

theorem two_le_size (g : LayerGraph) : 2 ≤ g.size := g.base.two_le_nodes

theorem size_lt (g : LayerGraph) : g.size < Word.halfLimit := g.base.nodes_lt

/-- A node is told by its low thirty-two bits. -/
theorem mod_halfLimit (hnode : node < g.size) : node % Word.halfLimit = node :=
  Nat.mod_eq_of_lt (Nat.lt_trans hnode g.size_lt)

/-- Every node has its base parents and its expander parents. -/
theorem exists_combined (g : LayerGraph) (hnode : node < g.size) :
    ∃ base expander, g.Parents node base expander := by
  obtain ⟨base, hbase, hlist⟩ := g.base.exists_parentList hnode
  have hlen := hlist.length_eq
  have hle := hlist.le
  rcases hx : g.expander with _ | x
  · refine ⟨base, [], hbase, ?_, hlen, ?_, hle, by simp⟩
    · rw [combinedSlots, hbase, hx, List.append_nil]
      rfl
    · rw [expansionDegree, hx]
      rfl
  · have hlayout := g.layout_eq x hx
    refine ⟨base, x.parents g.size node, hbase, ?_, hlen, ?_, hle,
      Expander.parents_lt hlayout hnode⟩
    · rw [combinedSlots, hbase, hx, List.map_append]
      rfl
    · rw [expansionDegree, hx]
      exact Expander.length_parents x _ _

/-- The parents of a node are its base parents followed by its expander parents. -/
theorem Parents.combinedParents_eq {base expander : List Nat} (h : g.Parents node base expander) :
    combinedParents g.base g.expander node = .ok (base ++ expander) := by
  rw [combinedParents, h.combined_eq, Buffer.values_map_ok]

/-! ## The table -/

/-- Every entry of a table has as many parents as a node has. -/
theorem length_of_mem_entries {entries : List (List Nat)}
    (h : Result.forRange (combinedParents g.base g.expander) 0 g.base.nodes = .ok entries) :
    ∀ group ∈ entries, group.length = g.degree := by
  intro group hgroup
  obtain ⟨i, hi, rfl⟩ := List.getElem_of_mem hgroup
  have hnode : i < g.size := by
    rw [Result.length_of_forRange h] at hi
    exact hi
  obtain ⟨base, expander, hparents⟩ := g.exists_combined hnode
  have hget := Result.getElem_of_forRange h i hi
  rw [Nat.zero_add, hparents.combinedParents_eq] at hget
  injection hget with hget
  rw [← hget, List.length_append, hparents.length_base, hparents.length_expander, degree]

/-- A position in a table is a word, because a node has at most thirty-seven parents. -/
theorem position_lt (hnode : node < g.size) : node * g.degree + g.degree < Word.limit := by
  have hdegree : g.degree ≤ hashedParents := g.degree_le
  have hbound : Word.halfLimit * hashedParents + hashedParents < Word.limit := by decide
  have hmul := Nat.mul_le_mul (Nat.le_of_lt (Nat.lt_trans hnode g.size_lt)) hdegree
  omega

/-- What a table holds of a node is what the graph computes. -/
theorem read_table {t : ParentTable} (ht : t ∈ g.table) (hnode : node < g.size)
    {base expander : List Nat} (h : g.Parents node base expander) :
    t.read node = .ok (some (base ++ expander)) := by
  obtain ⟨entries, hentries, htable⟩ := Result.bind_eq_ok (g.table_eq t ht)
  cases htable
  have hlen : entries.length = g.size := Result.length_of_forRange hentries
  have hget := Result.getElem_of_forRange hentries node (by omega)
  rw [Nat.zero_add, h.combinedParents_eq] at hget
  injection hget with hget
  obtain ⟨hle, hentry⟩ :=
    take_drop_flatten (length_of_mem_entries hentries) (i := node) (by omega)
  have hword := position_lt hnode
  show ParentTable.read ⟨g.degree, entries.flatten.toArray⟩ node = _
  unfold ParentTable.read
  rw [if_pos (show node * g.degree < Word.limit by omega), Word.add_of_lt hword, Result.ok_bind,
    if_pos (show node * g.degree + g.degree ≤ entries.flatten.toArray.size from hle)]
  have hread : (entries.flatten.toArray.extract (node * g.degree)
      (node * g.degree + g.degree)).toList = base ++ expander := by
    rw [Array.toList_extract, List.extract_eq_take_drop, Nat.add_sub_cancel_left, hentry, hget]
  show Except.ok (some _) = Except.ok (some (base ++ expander))
  rw [hread]

/-! ## The graph, with or without a table -/

variable {base expander : List Nat}

/-- The base parents stand in front, as many as the base degree. -/
theorem Parents.take_eq (h : g.Parents node base expander) :
    (base ++ expander).take g.baseDegree = base := by
  rw [← h.length_base, List.take_left]

theorem Parents.drop_eq (h : g.Parents node base expander) :
    (base ++ expander).drop g.baseDegree = expander := by
  rw [← h.length_base, List.drop_left]

/-- Each slot of the combined parents has a value, with or without a table. -/
theorem Parents.slotsOf_eq (h : g.Parents node base expander) (hnode : node < g.size) :
    g.slotsOf node = .ok ((base ++ expander).map .ok) := by
  unfold slotsOf tabulated
  rcases ht : g.table with _ | t
  · exact h.combined_eq
  · show t.read node >>= _ = _
    rw [read_table ht hnode h]
    rfl

theorem Parents.baseSlotsOf_eq (h : g.Parents node base expander) (hnode : node < g.size) :
    g.baseSlotsOf node = .ok (base.map .ok) := by
  unfold baseSlotsOf tabulated
  rcases ht : g.table with _ | t
  · exact h.sampled_eq
  · show t.read node >>= _ = _
    rw [read_table ht hnode h]
    show Except.ok (((base ++ expander).take g.baseDegree).map Except.ok) = _
    rw [h.take_eq]

/-- The expander parents of a node, none where the graph has no expander. -/
def expanderParents (g : LayerGraph) (node : Nat) : List Nat :=
  (g.expander.map fun x => x.parents g.size node).getD []

/-- What follows the base parents is what the expander gives. -/
theorem Parents.expander_eq (h : g.Parents node base expander) :
    expander = g.expanderParents node := by
  have hslots : Function.Injective (List.map (Except.ok : Nat → Result Nat)) :=
    List.map_injective_iff.mpr fun _ _ => Except.ok.inj
  have hcombined := h.combined_eq
  unfold combinedSlots at hcombined
  rw [h.sampled_eq, Result.ok_bind, List.map_append] at hcombined
  unfold expanderParents
  apply hslots
  rcases hx : g.expander with _ | x
  · rw [hx] at hcombined
    injection hcombined with hcombined
    exact List.self_eq_append_right.mp hcombined
  · rw [hx] at hcombined
    injection hcombined with hcombined
    exact (List.append_cancel_left hcombined).symm

theorem Parents.expanderSlotsOf_eq (h : g.Parents node base expander) (hnode : node < g.size) :
    g.expanderSlotsOf node = .ok (expander.map .ok) := by
  unfold expanderSlotsOf tabulated
  rcases ht : g.table with _ | t
  · rw [h.expander_eq, Result.ok_bind, expanderParents]
    rcases g.expander with _ | x <;> rfl
  · show t.read node >>= _ = _
    rw [read_table ht hnode h]
    show Except.ok (((base ++ expander).drop g.baseDegree).map Except.ok) = _
    rw [h.drop_eq]

/-- A node of the graph and a buffer of the right length pass the check. -/
theorem checkNode_of_lt (hnode : node < g.size) (length : Nat) :
    g.checkNode node length length = .ok () := by
  unfold checkNode
  rw [Result.require_of hnode, Result.ok_bind, Result.require_of rfl]

/-- A node beyond the graph is refused before the buffer's length is looked at. -/
theorem checkNode_of_le (hnode : g.size ≤ node) (length expected : Nat) :
    g.checkNode node length expected = refuse (.outOfBounds node g.size) := by
  unfold checkNode
  rw [Result.require_of_not (by omega), Result.refuse_bind]

/-- Asking for the parents of a node returns base and expander parents. -/
theorem Parents.parents_eq (h : g.Parents node base expander) (hnode : node < g.size) :
    g.parents node = .ok (base ++ expander) := by
  unfold parents
  rw [checkNode_of_lt hnode, Result.ok_bind, h.slotsOf_eq hnode, Buffer.values_map_ok]

theorem Parents.baseParents_eq (h : g.Parents node base expander) (hnode : node < g.size) :
    g.baseParents node = .ok base := by
  unfold baseParents
  rw [checkNode_of_lt hnode, Result.ok_bind, h.baseSlotsOf_eq hnode, Buffer.values_map_ok]

end LayerGraph

end Replication
