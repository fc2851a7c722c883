import Replication.Proofs.Graph.Table

/-!
# Reading the table of parents

A table is asked for any word, node or not. Of a node it holds exactly the parents that the graph
computes without it, and of what is no node it holds nothing. The start of an entry may leave the
range of words, which counts as no entry; its end may not. So there is one word, far behind the
last node, for which the read has no outcome (`read_outcome`).
-/

namespace Replication

namespace ParentTable

variable {t : ParentTable} {node : Nat}

/-- An entry that would start behind the last word is not there. -/
theorem read_of_limit_le_start (hstart : Word.limit ≤ node * t.degree) :
    t.read node = .ok none := by
  unfold read
  exact if_neg (by omega)

/-- Neither is one that ends behind the entries that there are. -/
theorem read_of_size_lt_stop (hstop : node * t.degree + t.degree < Word.limit)
    (hbehind : t.entries.size < node * t.degree + t.degree) : t.read node = .ok none := by
  unfold read
  rw [if_pos (show node * t.degree < Word.limit by omega), Word.add_of_lt hstop, Result.ok_bind,
    if_neg (by omega)]
  rfl

/-- The end of an entry is computed before it is compared with anything. -/
theorem read_of_overflow (hstart : node * t.degree < Word.limit)
    (hstop : Word.limit ≤ node * t.degree + t.degree) : t.read node = abort .overflow := by
  unfold read
  rw [if_pos hstart, Word.add_of_le hstop, Result.abort_bind]

/-- Of the entries that start at a word exactly one ends at none. -/
theorem straddles_limit_iff (hdegree : 0 < t.degree) :
    node * t.degree < Word.limit ∧ Word.limit ≤ node * t.degree + t.degree ↔
      node = (Word.limit - 1) / t.degree := by
  have hlimit : 0 < Word.limit := by decide
  have hlow : node ≤ (Word.limit - 1) / t.degree ↔ node * t.degree ≤ Word.limit - 1 :=
    Nat.le_div_iff_mul_le hdegree
  have hhigh : (Word.limit - 1) / t.degree < node + 1 ↔
      Word.limit - 1 < node * t.degree + t.degree := by
    rw [Nat.div_lt_iff_lt_mul hdegree, Nat.succ_mul]
  omega

end ParentTable

namespace LayerGraph

variable {g : LayerGraph} {t : ParentTable} {node : Nat}

theorem degree_pos (g : LayerGraph) : 0 < g.degree := by
  have hbase := g.base.two_le_degree
  unfold degree baseDegree
  omega

/-- A table has an entry for every node, as long as the node has parents. -/
theorem shape_of_table (ht : g.table = some t) :
    t.degree = g.degree ∧ t.entries.size = g.size * g.degree := by
  obtain ⟨entries, hentries, htable⟩ := Result.bind_eq_ok (g.table_eq t ht)
  cases htable
  have hlen : entries.length = g.size := Result.length_of_forRange hentries
  refine ⟨rfl, ?_⟩
  show entries.flatten.toArray.size = g.size * g.degree
  rw [List.size_toArray, List.length_flatten, List.map_congr_left (length_of_mem_entries hentries),
    List.map_const', List.sum_replicate_nat, hlen]

/-- All entries end at a word. -/
theorem size_mul_degree_lt (g : LayerGraph) : g.size * g.degree < Word.limit := by
  have hsize := g.two_le_size
  have hnode : g.size - 1 < g.size := by omega
  have hlast := position_lt hnode
  rwa [← Nat.succ_mul, Nat.succ_eq_add_one, Nat.sub_add_cancel (by omega)] at hlast

/-- Behind the last node there is no entry, unless its end is no word. -/
theorem read_of_size_le (ht : g.table = some t) (hnode : g.size ≤ node)
    (hne : node ≠ (Word.limit - 1) / g.degree) : t.read node = .ok none := by
  obtain ⟨hdegree, hentries⟩ := shape_of_table ht
  have hpos := g.degree_pos
  have hstraddles := mt (ParentTable.straddles_limit_iff (hdegree ▸ hpos)).mp (hdegree ▸ hne)
  by_cases hstart : Word.limit ≤ node * t.degree
  · exact ParentTable.read_of_limit_le_start hstart
  · have hmul : g.size * g.degree ≤ node * t.degree := by
      rw [hdegree]
      exact Nat.mul_le_mul_right _ hnode
    exact ParentTable.read_of_size_lt_stop (by omega) (by omega)

/-- The graph without its table. -/
def withoutTable (g : LayerGraph) : LayerGraph := { g with table := none, table_eq := by simp }

/-- What a table holds of a node is what the graph computes without the table. -/
theorem exists_read (ht : g.table = some t) (hnode : node < g.size) :
    ∃ parents, g.withoutTable.parents node = .ok parents ∧ parents.length = g.degree ∧
      t.read node = .ok (some parents) := by
  obtain ⟨base, expander, hparents⟩ := g.exists_combined hnode
  have hsame : g.Same g.withoutTable := ⟨rfl, rfl⟩
  refine ⟨base ++ expander, (hparents.of_same hsame).parents_eq hnode, ?_,
    read_table ht hnode hparents⟩
  rw [List.length_append, hparents.length_base, hparents.length_expander, degree]

/-- What a table answers to any word: for a node, the parents that the graph computes without the
table; for anything else, that there is no entry. The one exception is the word whose entry would
start at a word and end at none, for which the read aborts; it is never a node. -/
theorem read_outcome (ht : g.table = some t) (node : Nat) :
    (node < g.size → ∃ parents, g.withoutTable.parents node = .ok parents ∧
      parents.length = g.degree ∧ t.read node = .ok (some parents)) ∧
    (g.size ≤ node → node ≠ (2 ^ 64 - 1) / g.degree → t.read node = .ok none) ∧
    (t.read node = abort .overflow ↔ node = (2 ^ 64 - 1) / g.degree) ∧
    g.size ≤ (2 ^ 64 - 1) / g.degree := by
  have hlimit : 2 ^ 64 = Word.limit := rfl
  have hdegree := (shape_of_table ht).1
  rw [hlimit]
  refine ⟨exists_read ht, read_of_size_le ht, ⟨?_, ?_⟩, ?_⟩
  · intro habort
    -- every other word has an answer
    by_contra hne
    by_cases hnode : node < g.size
    · obtain ⟨parents, -, -, hread⟩ := exists_read ht hnode
      rw [hread] at habort
      cases habort
    · rw [read_of_size_le ht (by omega) hne] at habort
      cases habort
  · intro heq
    have hpos := g.degree_pos
    rw [← hdegree] at heq hpos
    obtain ⟨hstart, hstop⟩ := (ParentTable.straddles_limit_iff hpos).mpr heq
    exact ParentTable.read_of_overflow hstart hstop
  · rw [Nat.le_div_iff_mul_le g.degree_pos]
    exact Nat.le_sub_one_of_lt g.size_mul_degree_lt

/-- Four nodes with two base parents and one expander parent each have a table. -/
theorem exists_fourNodes : ∃ (g h : LayerGraph) (t : ParentTable), new 4 2 1 .zero = .ok g ∧
    g.withTable = .ok h ∧ h.table = some t ∧ h.size = 4 ∧ h.degree = 3 := by
  have hexists : ∃ g, new 4 2 1 .zero = .ok g :=
    exists_new .zero (by decide) (by decide) (by decide) (by decide)
  obtain ⟨g, hg⟩ := hexists
  obtain ⟨h, hh⟩ := g.exists_withTable
  obtain ⟨t, ht⟩ := Option.isSome_iff_exists.mp (isSome_table_of_withTable hh)
  have hsame := same_of_withTable hh
  exact ⟨g, h, t, hg, hh, ht, hsame.size_eq ▸ size_of_new hg, hsame.degree_eq ▸ degree_of_new hg⟩

/-- The table of four nodes has an entry for the last of them, and none for the node behind it and
for the largest word. -/
theorem read_fourNodes : ∃ (g h : LayerGraph) (t : ParentTable), new 4 2 1 .zero = .ok g ∧
    g.withTable = .ok h ∧ h.table = some t ∧ 3 < h.size ∧
    (∃ parents, h.withoutTable.parents 3 = .ok parents ∧ parents.length = h.degree ∧
      t.read 3 = .ok (some parents)) ∧
    h.size ≤ 4 ∧ t.read 4 = .ok none ∧ t.read (2 ^ 64 - 1) = .ok none := by
  obtain ⟨g, h, t, hg, hh, ht, hsize, hdegree⟩ := exists_fourNodes
  obtain ⟨hlast, -⟩ := read_outcome ht 3
  obtain ⟨-, hbehind, -⟩ := read_outcome ht 4
  obtain ⟨-, hword, -⟩ := read_outcome ht (2 ^ 64 - 1)
  rw [hdegree] at hbehind hword
  exact ⟨g, h, t, hg, hh, ht, by omega, hlast (by omega), by omega,
    hbehind (by omega) (by decide), hword (by omega) (by decide)⟩

/-- Not every word behind the last node is found to have no entry: for a third of the largest word,
a read of the table of four nodes with three parents each aborts. -/
theorem read_fourNodes_overflow : ∃ (g h : LayerGraph) (t : ParentTable),
    new 4 2 1 .zero = .ok g ∧ g.withTable = .ok h ∧ h.table = some t ∧
    h.size ≤ 6148914691236517205 ∧ 6148914691236517205 < Word.limit ∧
    t.read 6148914691236517205 = abort .overflow := by
  obtain ⟨g, h, t, hg, hh, ht, hsize, hdegree⟩ := exists_fourNodes
  have htable : t.degree = 3 := (shape_of_table ht).1.trans hdegree
  have hread : t.read 6148914691236517205 = abort .overflow := by
    apply ParentTable.read_of_overflow
    · rw [htable]
      decide
    · rw [htable]
      decide
  exact ⟨g, h, t, hg, hh, ht, by omega, by decide, hread⟩

end LayerGraph

end Replication
