import Replication.Proofs.Graph.Parents

/-!
# Construction of graphs

Graphs keep the parameters they are constructed from. A graph is constructed from every number of
nodes and of parents within the stated limits, and every graph can be given a table of its
parents.

All other parameters are refused for a defect, except where the number that a limit is compared with
is no word: the metanodes of a base graph, the parents of a node of a layer graph
(`construction_outcome`).
-/

namespace Replication

/-- The construction of a graph has a value exactly for the parameters that are accepted, aborts
exactly for those with a number that overflows, and refuses all others for a defect. -/
structure Constructs {α : Type} (construction : Result α) (accepted overflows : Prop) : Prop where
  exists_iff : (∃ graph, construction = .ok graph) ↔ accepted
  abort_iff : ∀ reason, construction = abort reason ↔ reason = .overflow ∧ overflows
  refused : ¬accepted → ¬overflows → ∃ defect, construction = refuse (.graph defect)

/-- Each outcome need only be known from the parameters, because there is only one. -/
theorem Constructs.of_cases {α : Type} {construction : Result α} {accepted overflows : Prop}
    (hdisjoint : accepted → ¬overflows) (hok : accepted → ∃ graph, construction = .ok graph)
    (habort : overflows → construction = abort .overflow)
    (hrefuse : ¬accepted → ¬overflows → ∃ defect, construction = refuse (.graph defect)) :
    Constructs construction accepted overflows := by
  by_cases haccepted : accepted
  · have hoverflows := hdisjoint haccepted
    obtain ⟨graph, heq⟩ := hok haccepted
    refine ⟨?_, ?_, hrefuse⟩ <;> simp [heq, haccepted, hoverflows, abort]
  · by_cases hoverflows : overflows
    · have heq := habort hoverflows
      refine ⟨?_, ?_, hrefuse⟩ <;> simp [heq, haccepted, hoverflows, abort, eq_comm]
    · obtain ⟨defect, heq⟩ := hrefuse haccepted hoverflows
      refine ⟨?_, ?_, hrefuse⟩ <;> simp [heq, haccepted, hoverflows, abort, refuse]

/-! ## Base graphs -/

namespace BaseGraph

theorem nodes_of_new {nodes degree : Nat} {id : PorepId} {g : BaseGraph}
    (h : new nodes degree id = .ok g) : g.nodes = nodes := by
  unfold new at h
  split at h
  · cases h
  split at h
  · cases h
  obtain ⟨_, _, h⟩ := Result.bind_eq_ok h
  split at h
  · cases h
  · cases h
    rfl

/-- A base graph within its limits can be built. -/
theorem exists_new {nodes degree : Nat} (id : PorepId) (hdegree : 2 ≤ degree)
    (hnodes : 2 ≤ nodes) (hlt : nodes < Word.halfLimit)
    (hmeta : nodes * (degree - 1) ≤ metanodeLimit) : ∃ g, new nodes degree id = .ok g := by
  have hlimit : metanodeLimit < Word.limit := by decide
  unfold new
  rw [dif_neg (by omega), dif_neg (by omega), Word.mul_of_lt (by omega), Result.ok_bind,
    dif_neg (by omega)]
  exact ⟨_, rfl⟩

/-- The metanodes are counted only for numbers of nodes and of parents that are accepted. -/
theorem new_of_overflow {nodes degree : Nat} (id : PorepId) (hdegree : 2 ≤ degree)
    (hnodes : 2 ≤ nodes) (hlt : nodes < Word.halfLimit)
    (hmeta : Word.limit ≤ nodes * (degree - 1)) : new nodes degree id = abort .overflow := by
  unfold new
  rw [dif_neg (by omega), dif_neg (by omega), Word.mul_of_le hmeta, Result.abort_bind]

/-- A base graph has at least two parents for each node, at least two nodes that are told by
thirty-two bits, and no more metanodes than doubles are exact for. -/
theorem constructs_new (nodes degree : Nat) (id : PorepId) :
    Constructs (new nodes degree id)
      (2 ≤ degree ∧ 2 ≤ nodes ∧ nodes < Word.halfLimit ∧ nodes * (degree - 1) ≤ metanodeLimit)
      (2 ≤ degree ∧ 2 ≤ nodes ∧ nodes < Word.halfLimit ∧ Word.limit ≤ nodes * (degree - 1)) := by
  have hlimit : metanodeLimit < Word.limit := by decide
  refine .of_cases (by omega) ?_ ?_ ?_
  · intro h
    obtain ⟨hdegree, hnodes, hlt, hmeta⟩ := h
    exact exists_new id hdegree hnodes hlt hmeta
  · intro h
    obtain ⟨hdegree, hnodes, hlt, hmeta⟩ := h
    exact new_of_overflow id hdegree hnodes hlt hmeta
  · intro haccepted hoverflows
    unfold new
    by_cases hdegree : degree < 2
    · rw [dif_pos hdegree]
      exact ⟨_, rfl⟩
    by_cases hnodes : nodes < 2 ∨ Word.halfLimit ≤ nodes
    · rw [dif_neg hdegree, dif_pos hnodes]
      exact ⟨_, rfl⟩
    rw [dif_neg hdegree, dif_neg hnodes, Word.mul_of_lt (by omega), Result.ok_bind,
      dif_pos (by omega)]
    exact ⟨_, rfl⟩

end BaseGraph

/-! ## Layer graphs -/

namespace LayerGraph

variable {nodes baseDegree expansionDegree : Nat} {id : PorepId} {g : LayerGraph}

/-- A constructed graph has the base graph of its parameters and as many expander parents as they
say. -/
theorem base_of_new (h : new nodes baseDegree expansionDegree id = .ok g) :
    BaseGraph.new nodes baseDegree id = .ok g.base ∧ g.expansionDegree = expansionDegree := by
  unfold new at h
  split at h
  · cases h
  split at h
  · cases h
  split at h
  · cases h
  · rename_i base hb
    split at h
    · rename_i hnone
      cases h
      exact ⟨hb, hnone.symm⟩
    · split at h
      · cases h
      · cases h
        exact ⟨hb, rfl⟩

theorem size_of_new (h : new nodes baseDegree expansionDegree id = .ok g) : g.size = nodes :=
  BaseGraph.nodes_of_new (base_of_new h).1

theorem degree_of_new (h : new nodes baseDegree expansionDegree id = .ok g) :
    g.degree = baseDegree + expansionDegree := by
  obtain ⟨hbase, hexpansion⟩ := base_of_new h
  show g.base.degree + g.expansionDegree = _
  rw [hexpansion, BaseGraph.degree_of_new hbase]

/-- The limits on a graph keep its metanodes and its slots within theirs. -/
theorem exists_new (id : PorepId) (hbase : 2 ≤ baseDegree)
    (hdegree : baseDegree + expansionDegree ≤ hashedParents) (hnodes : 2 ≤ nodes)
    (hlt : nodes < Word.halfLimit) :
    ∃ g, new nodes baseDegree expansionDegree id = .ok g := by
  -- thirty-seven parents of fewer than `2 ^ 32` nodes are fewer than either limit
  have hlimit : hashedParents < Word.limit := by decide
  have hmetaLimit : Word.halfLimit * hashedParents ≤ metanodeLimit := by decide
  have hslotLimit : hashedParents * Word.halfLimit ≤ Feistel.Layout.sizeLimit := by decide
  have hmeta : nodes * (baseDegree - 1) ≤ metanodeLimit :=
    Nat.le_trans (Nat.mul_le_mul (Nat.le_of_lt hlt) (by omega)) hmetaLimit
  obtain ⟨base, hb⟩ := BaseGraph.exists_new id hbase hnodes hlt hmeta
  have hsize : expansionDegree * base.nodes ≤ Feistel.Layout.sizeLimit := by
    rw [BaseGraph.nodes_of_new hb]
    exact Nat.le_trans (Nat.mul_le_mul (by omega) (Nat.le_of_lt hlt)) hslotLimit
  obtain ⟨layout, hl⟩ := Feistel.Layout.exists_forSize hsize
  unfold new
  rw [if_neg (by omega), dif_neg (by omega)]
  split
  · rename_i heq
    rw [hb] at heq
    cases heq
  · rename_i base' heq
    rw [hb] at heq
    cases heq
    split
    · exact ⟨_, rfl⟩
    · split
      · rename_i heq
        rw [hl] at heq
        cases heq
      · exact ⟨_, rfl⟩

/-- With a number of parents that can be hashed, what fails is the construction of the base
graph. -/
theorem new_of_base_error {failure : Failure}
    (hdegree : baseDegree + expansionDegree ≤ hashedParents)
    (hb : BaseGraph.new nodes baseDegree id = .error failure) :
    new nodes baseDegree expansionDegree id = .error failure := by
  have hlimit : hashedParents < Word.limit := by decide
  unfold new
  rw [if_neg (by omega), dif_neg (by omega)]
  split
  · rename_i heq
    rw [hb] at heq
    cases heq
    rfl
  · rename_i heq
    rw [hb] at heq
    cases heq

/-- A layer graph is a base graph with no more parents for each node than are hashed. -/
theorem constructs_new (nodes baseDegree expansionDegree : Nat) (id : PorepId) :
    Constructs (new nodes baseDegree expansionDegree id)
      (2 ≤ baseDegree ∧ baseDegree + expansionDegree ≤ hashedParents ∧ 2 ≤ nodes ∧
        nodes < Word.halfLimit)
      (Word.limit ≤ baseDegree + expansionDegree) := by
  have hlimit : hashedParents < Word.limit := by decide
  refine .of_cases (by omega) ?_ ?_ ?_
  · intro h
    obtain ⟨hbase, hdegree, hnodes, hlt⟩ := h
    exact exists_new id hbase hdegree hnodes hlt
  · intro hoverflow
    unfold new
    rw [if_pos hoverflow]
  · intro haccepted hoverflow
    by_cases hdegree : hashedParents < baseDegree + expansionDegree
    · unfold new
      rw [if_neg hoverflow, dif_pos hdegree]
      exact ⟨_, rfl⟩
    -- with so few parents, the base graph is refused for another reason than its metanodes
    have hmeta : nodes < Word.halfLimit → nodes * (baseDegree - 1) < Word.limit := by
      intro hlt
      have hbound : Word.halfLimit * hashedParents < Word.limit := by decide
      have hmul := Nat.mul_le_mul (Nat.le_of_lt hlt) (show baseDegree - 1 ≤ hashedParents by omega)
      omega
    obtain ⟨defect, hbase⟩ := (BaseGraph.constructs_new nodes baseDegree id).refused
      (by omega) (by omega)
    exact ⟨defect, new_of_base_error (by omega) hbase⟩

/-- A graph with a table is the same graph. -/
theorem same_of_withTable {h : LayerGraph} (hg : g.withTable = .ok h) : g.Same h := by
  unfold withTable at hg
  split at hg
  · cases hg
    exact ⟨rfl, rfl⟩
  · split at hg
    · cases hg
    · cases hg
      exact ⟨rfl, rfl⟩

/-- A table of parents can be stored for every graph. -/
theorem exists_withTable (g : LayerGraph) : ∃ h, g.withTable = .ok h := by
  have htable : ∃ t, ParentTable.tabulate g.base g.expander = .ok t := by
    have hentries : ∃ entries,
        Result.forRange (combinedParents g.base g.expander) 0 g.base.nodes = .ok entries := by
      apply Result.exists_forRange
      intro node hnode
      obtain ⟨base, expander, hparents⟩ := g.exists_combined hnode
      rw [Nat.zero_add]
      exact ⟨_, hparents.combinedParents_eq⟩
    obtain ⟨entries, hentries⟩ := hentries
    unfold ParentTable.tabulate
    rw [hentries]
    exact ⟨_, rfl⟩
  obtain ⟨t, ht⟩ := htable
  unfold withTable
  split
  · exact ⟨_, rfl⟩
  · split
    · rename_i heq
      rw [ht] at heq
      cases heq
    · exact ⟨_, rfl⟩

end LayerGraph

/-! ## The limits of both graphs -/

/-- Both graphs can be constructed within the limits of their parameters and not beyond. The
construction of a base graph aborts if the number of its metanodes is no word, that of a layer graph
if the number of the parents of a node is none; all other parameters beyond the limits are
refused. -/
theorem construction_outcome (nodes baseDegree expansionDegree : Nat) (id : PorepId) :
    Constructs (BaseGraph.new nodes baseDegree id)
      (2 ≤ baseDegree ∧ 2 ≤ nodes ∧ nodes ≤ 2 ^ 32 - 1 ∧ nodes * (baseDegree - 1) ≤ 2 ^ 54)
      (2 ≤ baseDegree ∧ 2 ≤ nodes ∧ nodes ≤ 2 ^ 32 - 1 ∧ 2 ^ 64 ≤ nodes * (baseDegree - 1)) ∧
    Constructs (LayerGraph.new nodes baseDegree expansionDegree id)
      (2 ≤ baseDegree ∧ baseDegree + expansionDegree ≤ 37 ∧ 2 ≤ nodes ∧ nodes ≤ 2 ^ 32 - 1)
      (2 ^ 64 ≤ baseDegree + expansionDegree) := by
  have hnodes : nodes ≤ 2 ^ 32 - 1 ↔ nodes < Word.halfLimit := Nat.le_sub_one_iff_lt (by decide)
  rw [hnodes]
  exact ⟨BaseGraph.constructs_new nodes baseDegree id,
    LayerGraph.constructs_new nodes baseDegree expansionDegree id⟩

/-- The largest number of nodes, with as many parents as either graph can have and with one more. -/
theorem construction_outcome_largest :
    (∃ g, BaseGraph.new (2 ^ 32 - 1) (2 ^ 22 + 1) .zero = .ok g) ∧
    (∃ defect, BaseGraph.new (2 ^ 32 - 1) (2 ^ 22 + 2) .zero = refuse (.graph defect)) ∧
    (∃ g, LayerGraph.new (2 ^ 32 - 1) 6 31 .zero = .ok g) ∧
    ∃ defect, LayerGraph.new (2 ^ 32 - 1) 6 32 .zero = refuse (.graph defect) := by
  obtain ⟨hbase, hlayer⟩ := construction_outcome (2 ^ 32 - 1) (2 ^ 22 + 1) 0 .zero
  obtain ⟨hbase', -⟩ := construction_outcome (2 ^ 32 - 1) (2 ^ 22 + 2) 0 .zero
  obtain ⟨-, hlayer⟩ := construction_outcome (2 ^ 32 - 1) 6 31 .zero
  obtain ⟨-, hlayer'⟩ := construction_outcome (2 ^ 32 - 1) 6 32 .zero
  exact ⟨hbase.exists_iff.mpr (by decide), hbase'.refused (by decide) (by decide),
    hlayer.exists_iff.mpr (by decide), hlayer'.refused (by decide) (by decide)⟩

/-- Not all parameters beyond the limits are refused: the construction aborts for words whose
product or whose sum is no word. -/
theorem construction_overflows :
    2 ^ 33 + 2 < Word.limit ∧ 2 ^ 54 < 2 ^ 31 * (2 ^ 33 + 2 - 1) ∧
    BaseGraph.new (2 ^ 31) (2 ^ 33 + 2) .zero = abort .overflow ∧
    2 ^ 64 - 1 < Word.limit ∧ 37 < 2 ^ 64 - 1 + 1 ∧
    LayerGraph.new 32 (2 ^ 64 - 1) 1 .zero = abort .overflow := by
  refine ⟨by decide, by decide, ?_, by decide, by decide, ?_⟩
  · exact BaseGraph.new_of_overflow .zero (by decide) (by decide) (by decide) (by decide)
  · exact ((LayerGraph.constructs_new 32 (2 ^ 64 - 1) 1 .zero).abort_iff .overflow).mpr
      ⟨rfl, by decide⟩

end Replication
