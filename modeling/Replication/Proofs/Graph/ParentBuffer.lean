import Replication.Proofs.Graph.Construction

/-!
# The parents of a node in a buffer

Asked for the parents of a node, a base graph either refuses and leaves the buffer as it was, or
writes exactly as many slots as its degree: `fillParents_outcome`. There is no third outcome, since
no word that may be drawn for a parent makes the sampling leave the range of its numbers.
-/

namespace Replication.BaseGraph

/-! ## The buffer -/

/-- What a buffer holds once the parents of a node were written over its start. -/
structure Filled (node degree : Nat) (before after : List Nat) : Prop where
  length_eq : after.length = before.length
  behind_eq : ∀ slot, degree ≤ slot → after[slot]? = before[slot]?
  first_eq_zero : node < 2 → ∀ slot < degree, after[slot]? = some 0
  parent_lt : 2 ≤ node → ∀ slot < degree, ∃ parent, after[slot]? = some parent ∧ parent < node
  predecessor_last : 2 ≤ node → after[degree - 1]? = some (node - 1)

/-- A list of parents written onto the front of a buffer leaves the buffer as filled. -/
theorem ParentList.filled {node degree : Nat} {parents before : List Nat}
    (h : ParentList node degree parents) (hdegree : 0 < degree) (hroom : degree ≤ before.length) :
    Filled node degree before (parents ++ before.drop parents.length) := by
  have hlen := h.length_eq
  -- below the degree a slot holds a parent, from there on what it held before
  have hwritten : ∀ slot < degree, ∃ parent ∈ parents,
      (parents ++ before.drop parents.length)[slot]? = some parent := by
    intro slot hslot
    have hslot' : slot < parents.length := by omega
    rw [List.getElem?_append_left hslot', List.getElem?_eq_getElem hslot']
    exact ⟨_, List.getElem_mem hslot', rfl⟩
  refine ⟨?_, ?_, ?_, ?_, ?_⟩
  · rw [List.length_append, List.length_drop]
    omega
  · intro slot hslot
    rw [List.getElem?_append_right (by omega), List.getElem?_drop]
    congr 1
    omega
  · intro hfirst slot hslot
    obtain ⟨parent, hmem, hget⟩ := hwritten slot hslot
    rw [hget, h.eq_zero hfirst parent hmem]
  · intro htwo slot hslot
    obtain ⟨parent, hmem, hget⟩ := hwritten slot hslot
    exact ⟨parent, hget, h.lt htwo parent hmem⟩
  · intro htwo
    rw [List.getElem?_append_left (by omega)]
    exact h.predecessor_last htwo

/-- A graph refuses a node it does not have and a buffer that is too short, and then leaves the
buffer as it was. To any other buffer it writes the parents of the node. -/
theorem fillParents_outcome {nodes degree : Nat} {id : PorepId} {g : BaseGraph}
    (hg : new nodes degree id = .ok g) (node : Nat) (buffer : List Nat) :
    (nodes ≤ node → g.fillParents node buffer = (refuse (.outOfBounds node nodes), buffer)) ∧
    (node < nodes → buffer.length < degree →
      g.fillParents node buffer = (refuse (.parentCount degree buffer.length), buffer)) ∧
    (node < nodes → degree ≤ buffer.length →
      ∃ after, g.fillParents node buffer = (.ok (), after) ∧ Filled node degree buffer after) := by
  obtain rfl := nodes_of_new hg
  obtain rfl := degree_of_new hg
  unfold fillParents
  refine ⟨?_, ?_, ?_⟩
  · intro hnode
    have hrefused : Result.require (node < g.nodes) (.outOfBounds node g.nodes)
        = refuse (.outOfBounds node g.nodes) := if_neg (by omega)
    rw [hrefused]
    rfl
  · intro hnode hshort
    have hrefused : Result.require (g.degree ≤ buffer.length)
        (.parentCount g.degree buffer.length)
          = refuse (.parentCount g.degree buffer.length) := if_neg (by omega)
    rw [Result.require_of hnode, Result.ok_bind, hrefused]
    rfl
  · intro hnode hroom
    obtain ⟨parents, hparents, hlist⟩ := g.exists_parentList hnode
    have hdegree := g.two_le_degree
    rw [Result.require_of hnode, Result.ok_bind, Result.require_of hroom, Result.ok_bind, hparents,
      Buffer.fillWith, Buffer.fill_map_ok (hlist.length_eq ▸ hroom)]
    exact ⟨_, rfl, hlist.filled (by omega) hroom⟩

/-- The last of five nodes has two sampled parents and node 3; a fourth slot stays as it was. -/
theorem fillParents_last_node : ∃ g after, new 5 3 .zero = .ok g ∧
    g.fillParents 4 [7, 7, 7, 7] = (.ok (), after) ∧ Filled 4 3 [7, 7, 7, 7] after ∧
    g.fillParents 5 [7, 7, 7, 7] = (refuse (.outOfBounds 5 5), [7, 7, 7, 7]) ∧
    g.fillParents 4 [7, 7] = (refuse (.parentCount 3 2), [7, 7]) := by
  have hexists : ∃ g, new 5 3 .zero = .ok g :=
    exists_new .zero (by decide) (by decide) (by decide) (by decide)
  obtain ⟨g, hg⟩ := hexists
  have hwritten := (fillParents_outcome hg 4 [7, 7, 7, 7]).2.2
  obtain ⟨after, hafter, hfilled⟩ := hwritten (by decide) (by decide)
  refine ⟨g, after, hg, hafter, hfilled, ?_, ?_⟩
  · exact (fillParents_outcome hg 5 [7, 7, 7, 7]).1 (by decide)
  · exact (fillParents_outcome hg 4 [7, 7]).2.1 (by decide) (by decide)

end Replication.BaseGraph
