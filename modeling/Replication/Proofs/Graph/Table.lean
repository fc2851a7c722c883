import Replication.Proofs.Graph.Construction

/-!
# The table of parents is not seen

A graph answers every request for parents from its table if it has one, and computes the parents
otherwise. The two ways never disagree: graphs that are the same without their tables write the
same parents to every buffer and refuse the same requests, and a refused request leaves the buffer
alone (`table_unobservable`).
-/

namespace Replication

namespace LayerGraph

variable {g h : LayerGraph} {node : Nat} {base expander : List Nat}

/-! ## Graphs that are the same without their tables -/

theorem Same.size_eq (hsame : g.Same h) : g.size = h.size := by
  rw [size, size, hsame.1]

theorem Same.baseDegree_eq (hsame : g.Same h) : g.baseDegree = h.baseDegree := by
  rw [baseDegree, baseDegree, hsame.1]

theorem Same.expansionDegree_eq (hsame : g.Same h) : g.expansionDegree = h.expansionDegree := by
  rw [expansionDegree, expansionDegree, hsame.2]

theorem Same.degree_eq (hsame : g.Same h) : g.degree = h.degree := by
  rw [degree, degree, hsame.baseDegree_eq, hsame.expansionDegree_eq]

/-- Graphs that differ in their tables alone refuse the same requests. -/
theorem Same.checkNode_eq (hsame : g.Same h) (node length expected : Nat) :
    g.checkNode node length expected = h.checkNode node length expected := by
  rw [checkNode, checkNode, hsame.size_eq]

/-- The parents of a node are those of the base graph and of the expander. -/
theorem Parents.of_same (hsame : g.Same h) (hparents : g.Parents node base expander) :
    h.Parents node base expander where
  sampled_eq := hsame.1 ▸ hparents.sampled_eq
  combined_eq := hsame.1 ▸ hsame.2 ▸ hparents.combined_eq
  length_base := hsame.baseDegree_eq ▸ hparents.length_base
  length_expander := hsame.expansionDegree_eq ▸ hparents.length_expander
  base_le := hparents.base_le
  expander_lt := hsame.size_eq ▸ hparents.expander_lt

/-! ## Requests -/

theorem checkNode_eq_ok_iff {length expected : Nat} {u : Unit} :
    g.checkNode node length expected = .ok u ↔ node < g.size ∧ length = expected := by
  unfold checkNode
  rw [Result.bind_eq_ok_iff]
  simp only [Result.require_eq_ok_iff, exists_and_left, exists_const]

/-- A way to find parents gives those that `part` takes of the base parents and the expander parents
of a node, `count` of them, whether the graph has a table or not. -/
structure Finds (find : LayerGraph → Nat → Result (List (Result Nat))) (count : LayerGraph → Nat)
    (part : List Nat → List Nat → List Nat) : Prop where
  slots_eq : ∀ {g : LayerGraph} {node : Nat} {base expander : List Nat},
    g.Parents node base expander → node < g.size →
      find g node = .ok ((part base expander).map .ok)
  length_eq : ∀ {g : LayerGraph} {node : Nat} {base expander : List Nat},
    g.Parents node base expander → (part base expander).length = count g
  count_eq : ∀ {g h : LayerGraph}, g.Same h → count g = count h

theorem finds_slotsOf : Finds slotsOf degree (· ++ ·) where
  slots_eq := Parents.slotsOf_eq
  length_eq h := by rw [List.length_append, h.length_base, h.length_expander, degree]
  count_eq := Same.degree_eq

theorem finds_baseSlotsOf : Finds baseSlotsOf baseDegree fun base _ => base where
  slots_eq := Parents.baseSlotsOf_eq
  length_eq := Parents.length_base
  count_eq := Same.baseDegree_eq

theorem finds_expanderSlotsOf :
    Finds expanderSlotsOf expansionDegree fun _ expander => expander where
  slots_eq := Parents.expanderSlotsOf_eq
  length_eq := Parents.length_expander
  count_eq := Same.expansionDegree_eq

section

variable {find : LayerGraph → Nat → Result (List (Result Nat))} {count : LayerGraph → Nat}
  {part : List Nat → List Nat → List Nat} (hfinds : Finds find count part)

include hfinds

/-- Graphs that differ in their tables alone find the same parents. -/
theorem Finds.eq_of_same (hsame : g.Same h) (hnode : node < g.size) :
    find g node = find h node := by
  obtain ⟨base, expander, hparents⟩ := g.exists_combined hnode
  rw [hfinds.slots_eq hparents hnode,
    hfinds.slots_eq (hparents.of_same hsame) (hsame.size_eq ▸ hnode)]

/-- A request checks the node and the buffer before it looks at any parents, so it needs them to be
the same on the nodes of the graph only. -/
theorem Finds.checked_eq (hsame : g.Same h) (node length : Nat) :
    (g.checkNode node length (count g) >>= fun _ => find g node)
      = h.checkNode node length (count h) >>= fun _ => find h node := by
  rw [← hsame.checkNode_eq, ← hfinds.count_eq hsame]
  exact Result.bind_congr_of_ok fun _ hcheck =>
    hfinds.eq_of_same hsame (checkNode_eq_ok_iff.mp hcheck).1

/-- Parents are found for each slot of a buffer that passes the check, so once the first slot is
written no other fails: whatever fails, fails in the check. -/
theorem Finds.fillWith_of_error {buffer : List Nat} {failure : Failure}
    (hfailure : (Buffer.fillWith
      (g.checkNode node buffer.length (count g) >>= fun _ => find g node) buffer).1
        = .error failure) :
    (Buffer.fillWith
      (g.checkNode node buffer.length (count g) >>= fun _ => find g node) buffer).2 = buffer := by
  rcases hcheck : g.checkNode node buffer.length (count g) with failure' | ⟨⟩
  · rfl
  · obtain ⟨hnode, hlen⟩ := checkNode_eq_ok_iff.mp hcheck
    obtain ⟨base, expander, hparents⟩ := g.exists_combined hnode
    have hroom := Nat.le_of_eq ((hfinds.length_eq hparents).trans hlen.symm)
    rw [hcheck, Result.ok_bind, hfinds.slots_eq hparents hnode, Buffer.fillWith,
      Buffer.fill_map_ok hroom] at hfailure
    cases hfailure

end

/-- The three requests for the parents of a node, each of which writes to a buffer. -/
def requests : List (LayerGraph → Nat → OnBuffer (List Nat) Unit) :=
  [fillParents, fillBaseParents, fillExpanderParents]

/-- Every request checks the node and the buffer and then writes what it finds. -/
theorem exists_finds_of_mem_requests {fill : LayerGraph → Nat → OnBuffer (List Nat) Unit}
    (hfill : fill ∈ requests) : ∃ find count part, Finds find count part ∧
      ∀ (g : LayerGraph) (node : Nat) (buffer : List Nat), fill g node buffer = Buffer.fillWith
        (g.checkNode node buffer.length (count g) >>= fun _ => find g node) buffer := by
  simp only [requests, List.mem_cons, List.not_mem_nil, or_false] at hfill
  rcases hfill with rfl | rfl | rfl
  · exact ⟨_, _, _, finds_slotsOf, fun _ _ _ => rfl⟩
  · exact ⟨_, _, _, finds_baseSlotsOf, fun _ _ _ => rfl⟩
  · exact ⟨_, _, _, finds_expanderSlotsOf, fun _ _ _ => rfl⟩

/-- Each of the three requests does the same to a buffer, whichever table is stored. -/
theorem Same.request_eq (hsame : g.Same h) {fill : LayerGraph → Nat → OnBuffer (List Nat) Unit}
    (hfill : fill ∈ requests) (node : Nat) (buffer : List Nat) :
    fill g node buffer = fill h node buffer := by
  obtain ⟨find, count, part, hfinds, hfill⟩ := exists_finds_of_mem_requests hfill
  rw [hfill, hfill, hfinds.checked_eq hsame]

/-- A failed request leaves the buffer as it was. -/
theorem request_of_error {fill : LayerGraph → Nat → OnBuffer (List Nat) Unit}
    (hfill : fill ∈ requests) {buffer : List Nat} {failure : Failure}
    (hfailure : (fill g node buffer).1 = .error failure) : (fill g node buffer).2 = buffer := by
  obtain ⟨find, count, part, hfinds, hfill⟩ := exists_finds_of_mem_requests hfill
  rw [hfill] at hfailure ⊢
  exact hfinds.fillWith_of_error hfailure

/-- A graph with a table has one. -/
theorem isSome_table_of_withTable (ht : g.withTable = .ok h) : h.table.isSome := by
  unfold withTable at ht
  split at ht
  · rename_i t htable
    cases ht
    rw [htable]
    rfl
  · split at ht
    · cases ht
    · cases ht
      rfl

/-- Every graph can be given a table and stays the same graph, and graphs that are the same answer
every request alike, refusals included, whichever of them have a table. A failed request leaves the
buffer as it was. -/
theorem table_unobservable (g : LayerGraph) :
    (∃ t, g.withTable = .ok t ∧ t.table.isSome ∧ g.Same t) ∧
      ∀ h, g.Same h → ∀ fill ∈ requests, ∀ node buffer,
        fill g node buffer = fill h node buffer ∧
          ∀ failure, (fill g node buffer).1 = .error failure →
            (fill g node buffer).2 = buffer := by
  obtain ⟨t, ht⟩ := g.exists_withTable
  refine ⟨⟨t, ht, isSome_table_of_withTable ht, same_of_withTable ht⟩, ?_⟩
  intro h hsame fill hfill node buffer
  exact ⟨hsame.request_eq hfill node buffer, fun _ => request_of_error hfill⟩

/-- Five nodes with two base parents and three expander parents each, without a table and with
one. -/
theorem table_unobservable_five : ∃ g t, new 5 2 3 .zero = .ok g ∧ g.withTable = .ok t ∧
    t.table.isSome ∧ g.Same t ∧ ∀ fill ∈ requests, ∀ node buffer,
      fill g node buffer = fill t node buffer := by
  have hexists : ∃ g, new 5 2 3 .zero = .ok g :=
    exists_new .zero (by decide) (by decide) (by decide) (by decide)
  obtain ⟨g, hg⟩ := hexists
  obtain ⟨⟨t, ht, htable, hsame⟩, hrequests⟩ := table_unobservable g
  exact ⟨g, t, hg, ht, htable, hsame, fun fill hfill node buffer =>
    (hrequests t hsame fill hfill node buffer).1⟩

end LayerGraph

end Replication
