import Mathlib.Data.List.InsertIdx
import Replication.Proofs.Merkle.Opening
import Replication.Proofs.Merkle.Shape

/-!
# The openings of a complete tree

A tree that could be built over canonical leaves is *complete*: it has a power of the arity as its
number of leaves, and each of its rows is hashed from the row below. The opening that is read off
such a tree at a position leads from the leaf there to the root: every step fits, the path has one
step for each level, and its places are the digits of the position.
-/

namespace Replication.Merkle

/-- The elements of a row that are hashed to node `i` of the row above. -/
def groupAt (arity : Nat) (row : List Element) (i : Nat) : List Element :=
  (row.drop (i * arity)).take arity

/-- The first element of the highest row. -/
def apex (rows : List (List Element)) : Element := ((rows.getLast?).bind List.head?).getD .zero

section Rows

variable {shape : Shape} {row above : List Element} {count : Nat}

/-- Every group of a row that divides evenly is full. -/
theorem length_groupAt {arity : Nat} (hlen : row.length = count * arity) {i : Nat}
    (hi : i < count) : (groupAt arity row i).length = arity := by
  have hle : (i + 1) * arity ≤ count * arity := Nat.mul_le_mul_right arity hi
  rw [Nat.succ_mul] at hle
  unfold groupAt
  rw [List.length_take, List.length_drop, hlen]
  omega

theorem mem_of_mem_groupAt {arity : Nat} {i : Nat} {e : Element} (h : e ∈ groupAt arity row i) :
    e ∈ row :=
  List.mem_of_mem_drop (List.mem_of_mem_take h)

/-- A row that divides evenly is cut into its groups. -/
theorem pieces_eq_map_groupAt {arity : Nat} (harity : 0 < arity)
    (hlen : row.length = count * arity) :
    pieces arity row = (List.range count).map (groupAt arity row) :=
  pieces_eq_map_range harity hlen

/-- The row above has one node per group. -/
theorem length_of_rowAbove (harity : 0 < shape.arity) (hlen : row.length = count * shape.arity)
    (h : rowAbove shape row = .ok above) : above.length = count := by
  have hmap := Result.length_of_mapM h
  rwa [pieces_eq_map_groupAt harity hlen, List.length_map, List.length_range] at hmap

/-- The group of a node has a place in the row above. -/
theorem div_lt_length_of_rowAbove (harity : 0 < shape.arity)
    (hlen : row.length = count * shape.arity) (h : rowAbove shape row = .ok above) {i : Nat}
    (hi : i < row.length) : i / shape.arity < above.length := by
  rw [length_of_rowAbove harity hlen h]
  exact (Nat.div_lt_iff_lt_mul harity).mpr (hlen ▸ hi)

/-- A node of the row above is the hash of its group. -/
theorem node_groupAt (harity : 0 < shape.arity) (hlen : row.length = count * shape.arity)
    (h : rowAbove shape row = .ok above) {i : Nat} (hi : i < above.length) :
    shape.family.node (groupAt shape.arity row i) = .ok above[i] := by
  have hcount := length_of_rowAbove harity hlen h
  rw [rowAbove, pieces_eq_map_groupAt harity hlen] at h
  have hrange : i < ((List.range count).map (groupAt shape.arity row)).length := by
    rw [List.length_map, List.length_range]
    omega
  have hget := Result.getElem_of_mapM h i hrange hi
  rwa [List.getElem_map, List.getElem_range] at hget

theorem isCanonical_of_rowAbove (h : rowAbove shape row = .ok above) :
    ∀ e ∈ above, e.IsCanonical :=
  Result.forall_mem_of_mapM h fun _ _ _ hnode => HashFamily.isCanonical_of_node hnode

/-- A row of canonical nodes that divides evenly has a row above. -/
theorem exists_rowAbove (hshape : shape.Hashes) (hlen : row.length = count * shape.arity)
    (hcanonical : ∀ e ∈ row, e.IsCanonical) : ∃ above, rowAbove shape row = .ok above := by
  have harity : 0 < shape.arity := Nat.lt_of_lt_of_le (by decide) hshape.two_le_arity
  apply Result.exists_mapM
  rw [pieces_eq_map_groupAt harity hlen]
  intro group hgroup
  obtain ⟨i, hi, rfl⟩ := List.mem_map.mp hgroup
  apply hshape.exists_node (length_groupAt hlen (List.mem_range.mp hi))
  intro e he
  exact hcanonical e (mem_of_mem_groupAt he)

/-- The rows above a row are its row above and the rows above that. -/
theorem rowsAbove_succ_eq_ok_iff {levels : Nat} {upper : List (List Element)} :
    rowsAbove shape (levels + 1) row = .ok upper ↔
      ∃ above rest, rowAbove shape row = .ok above ∧ rowsAbove shape levels above = .ok rest ∧
        upper = above :: rest := by
  rw [rowsAbove]
  simp only [Result.bind_eq_ok_iff, Result.pure_eq_ok, Except.ok.injEq]
  constructor
  · rintro ⟨above, habove, rest, hrest, rfl⟩
    exact ⟨above, rest, habove, hrest, rfl⟩
  · rintro ⟨above, rest, habove, hrest, rfl⟩
    exact ⟨above, habove, rest, hrest, rfl⟩

/-- Over a power of the arity all rows up to the root exist. -/
theorem exists_rowsAbove (hshape : shape.Hashes) {height : Nat} {row : List Element}
    (hlen : row.length = shape.arity ^ height) (hcanonical : ∀ e ∈ row, e.IsCanonical) :
    ∃ upper, rowsAbove shape height row = .ok upper := by
  have harity : 0 < shape.arity := Nat.lt_of_lt_of_le (by decide) hshape.two_le_arity
  induction height generalizing row with
  | zero => exact ⟨[], rfl⟩
  | succ height ih =>
    rw [Nat.pow_succ] at hlen
    obtain ⟨above, habove⟩ := exists_rowAbove hshape hlen hcanonical
    obtain ⟨rest, hrest⟩ :=
      ih (length_of_rowAbove harity hlen habove) (isCanonical_of_rowAbove habove)
    exact ⟨above :: rest, rowsAbove_succ_eq_ok_iff.mpr ⟨above, rest, habove, hrest, rfl⟩⟩

end Rows

/-! ## The step from a row to the row above -/

section Step

variable {arity count : Nat} {row : List Element}

/-- Position `i` lies in group `i / arity` at place `i % arity`. -/
theorem getElem_groupAt {i : Nat} (hi : i < row.length)
    (hplace : i % arity < (groupAt arity row (i / arity)).length) :
    (groupAt arity row (i / arity))[i % arity] = row[i] := by
  have hsum : i / arity * arity + i % arity = i := by
    rw [Nat.mul_comm]
    exact Nat.div_add_mod i arity
  simp only [groupAt, List.getElem_take, List.getElem_drop, hsum]

/-- The index of a step is the place of the node within its group. -/
theorem index_stepAt (harity : 0 < arity) (hword : arity < Word.limit) (i : Nat) :
    (stepAt arity row i).index.toNat = i % arity := by
  have hlt := Nat.mod_lt i harity
  show (i % arity).toUInt64.toNat = i % arity
  rw [Nat.toUInt64_eq, UInt64.toNat_ofNat']
  exact Nat.mod_eq_of_lt (Nat.lt_trans hlt hword)

/-- With the node at position `i` put back among its siblings, its group is complete again. -/
theorem children_stepAt (harity : 0 < arity) (hword : arity < Word.limit)
    (hlen : row.length = count * arity) {i : Nat} (hi : i < row.length) :
    (stepAt arity row i).children row[i] = groupAt arity row (i / arity) := by
  have hplace : i % arity < (groupAt arity row (i / arity)).length := by
    rw [length_groupAt hlen ((Nat.div_lt_iff_lt_mul harity).mpr (hlen ▸ hi))]
    exact Nat.mod_lt i harity
  have hinsert := List.insertIdx_eraseIdx_getElem hplace
  rw [getElem_groupAt hi hplace] at hinsert
  unfold Step.children
  rw [index_stepAt harity hword]
  exact hinsert

/-- The steps read off a tree fit its shape. -/
theorem fits_stepAt {shape : Shape} (harity : 0 < shape.arity) (hword : shape.arity < Word.limit)
    (hlen : row.length = count * shape.arity) (hcanonical : ∀ e ∈ row, e.IsCanonical) {i : Nat}
    (hi : i < row.length) : (stepAt shape.arity row i).Fits shape := by
  have hgroup := length_groupAt hlen ((Nat.div_lt_iff_lt_mul harity).mpr (hlen ▸ hi))
  have hplace := Nat.mod_lt i harity
  refine ⟨?_, ?_, ?_⟩
  · show ((groupAt shape.arity row (i / shape.arity)).eraseIdx (i % shape.arity)).length = _
    rw [List.length_eraseIdx, hgroup, if_pos hplace]
  · rw [index_stepAt harity hword]
    exact hplace
  · intro e he
    exact hcanonical e (mem_of_mem_groupAt (List.mem_of_mem_eraseIdx he))

end Step

/-! ## Complete trees -/

/-- A tree all of whose rows are full and hashed from the row below. -/
structure Tree.Complete (t : Tree) (height : Nat) : Prop where
  two_le_arity : 2 ≤ t.shape.arity
  height_pos : 1 ≤ height
  leaves_lt : t.shape.arity ^ height < Word.halfLimit
  length_leaves : t.leaves.length = t.shape.arity ^ height
  canonical : ∀ e ∈ t.leaves, e.IsCanonical
  rows_eq : rowsAbove t.shape height t.leaves = .ok t.upper

/-- What holds of the path from position `i` of a row to the apex of the rows above it. -/
structure Path.LeadsUp (shape : Shape) (rows : List (List Element)) (height i : Nat)
    (leaf : Element) (path : Path) : Prop where
  length_eq : path.length = height
  fits : ∀ step ∈ path, step.Fits shape
  climb_eq : path.climb shape leaf = .ok (some (apex rows))
  position_eq : path.position shape.arity = i

/-- The path read off the rows leads up. The induction is on the number of levels; the rest of the
path starts in the row above, in the place of the group's hash. -/
theorem leadsUp_pathUp {shape : Shape} (harity : 2 ≤ shape.arity)
    (hword : shape.arity < Word.limit) {height : Nat} {row : List Element}
    {upper : List (List Element)} (hlen : row.length = shape.arity ^ height)
    (hcanonical : ∀ e ∈ row, e.IsCanonical) (hrows : rowsAbove shape height row = .ok upper)
    {i : Nat} (hi : i < row.length) (hi' : i < Word.limit) :
    (pathUp shape.arity (row :: upper) i).LeadsUp shape (row :: upper) height i row[i] := by
  induction height generalizing row upper i with
  | zero =>
    cases hrows
    have hsingle : row.length = 1 := hlen
    obtain ⟨root, rfl⟩ := List.length_eq_one_iff.mp hsingle
    have hzero : i = 0 := by omega
    subst hzero
    exact ⟨rfl, by simp [pathUp], rfl, rfl⟩
  | succ height ih =>
    rw [Nat.pow_succ] at hlen
    obtain ⟨above, rest, habove, hrest, rfl⟩ := rowsAbove_succ_eq_ok_iff.mp hrows
    have hpos : 0 < shape.arity := by omega
    have hlenAbove := length_of_rowAbove hpos hlen habove
    have hdiv := div_lt_length_of_rowAbove hpos hlen habove hi
    have hle : i / shape.arity ≤ i := Nat.div_le_self i shape.arity
    have htail := ih hlenAbove (isCanonical_of_rowAbove habove) hrest hdiv (by omega)
    have hfits := fits_stepAt hpos hword hlen hcanonical hi
    -- the first step closes the group of `i`, the rest leads up from the hash of that group
    have hpath : pathUp shape.arity (row :: above :: rest) i
        = stepAt shape.arity row i :: pathUp shape.arity (above :: rest) (i / shape.arity) := rfl
    rw [hpath]
    refine ⟨?_, ?_, ?_, ?_⟩
    · rw [List.length_cons, htail.length_eq]
    · rw [List.forall_mem_cons]
      exact ⟨hfits, htail.fits⟩
    · rw [Path.climb_cons_eq_ok_some_iff]
      refine ⟨hfits, above[i / shape.arity], ?_, ?_⟩
      · rw [children_stepAt hpos hword hlen hi]
        exact node_groupAt hpos hlen habove hdiv
      · exact htail.climb_eq
    · exact Path.position_cons_of htail.position_eq (index_stepAt hpos hword i) hi'

/-- Above a leaf the root of a path is a hash, so it is canonical. -/
theorem Path.isCanonical_of_climb {shape : Shape} {path : Path} {node root : Element}
    (hne : path ≠ []) (h : path.climb shape node = .ok (some root)) : root.IsCanonical := by
  induction path generalizing node with
  | nil => exact absurd rfl hne
  | cons step rest ih =>
    obtain ⟨-, parent, hparent, hrest⟩ := Path.climb_cons_eq_ok_some_iff.mp h
    by_cases hlast : rest = []
    · rw [hlast] at hrest
      cases hrest
      exact HashFamily.isCanonical_of_node hparent
    · exact ih hlast hrest

namespace Path.LeadsUp

variable {shape : Shape} {rows : List (List Element)} {height i : Nat} {leaf : Element}
  {path : Path}

/-- The root of a tree of at least one level is canonical. -/
theorem isCanonical_apex (h : path.LeadsUp shape rows height i leaf) (hheight : 1 ≤ height) :
    (apex rows).IsCanonical := by
  apply isCanonical_of_climb _ h.climb_eq
  intro hnil
  have hlen := h.length_eq
  rw [hnil, List.length_nil] at hlen
  omega

theorem verify_eq (h : path.LeadsUp shape rows height i leaf) (hleaf : leaf.IsCanonical) :
    (Opening.mk (apex rows) leaf path).verify shape = .ok true :=
  Opening.verify_eq_ok_true_iff.mpr ⟨hleaf, h.climb_eq⟩

theorem requireElements_eq (h : path.LeadsUp shape rows height i leaf) (hheight : 1 ≤ height)
    (hleaf : leaf.IsCanonical) :
    (Opening.mk (apex rows) leaf path).requireElements shape.arity = .ok () := by
  rw [Opening.requireElements_eq_ok_iff]
  exact ⟨fun step hstep => (h.fits step hstep).2, hleaf, h.isCanonical_apex hheight⟩

end Path.LeadsUp

namespace Tree

variable {t : Tree} {height : Nat}

/-- The opening of a position; its leaf is zero where there is none. -/
def opening (t : Tree) (i : Nat) : Opening :=
  ⟨t.root, t.leaves.getD i .zero, pathUp t.shape.arity t.rows i⟩

theorem leaf_opening (t : Tree) {i : Nat} (hi : i < t.leaves.length) :
    (t.opening i).leaf = t.leaves[i] := by
  show t.leaves.getD i Element.zero = t.leaves[i]
  exact (List.getElem_eq_getD Element.zero).symm

/-- The opening of a leaf consists of the root, the leaf and the path between them. -/
theorem opening_eq (t : Tree) {i : Nat} (hi : i < t.leaves.length) :
    t.opening i = ⟨apex t.rows, t.leaves[i], pathUp t.shape.arity t.rows i⟩ := by
  rw [← leaf_opening t hi]
  rfl

/-- Every leaf of a tree can be opened. -/
theorem openAt_eq (t : Tree) {i : Nat} (hi : i < t.leaves.length) :
    t.openAt i = .ok (t.opening i) := by
  rw [openAt, List.getElem?_eq_getElem hi]
  show Except.ok (Opening.mk t.root t.leaves[i] _) = _
  rw [← leaf_opening t hi]
  rfl

namespace Complete

theorem arity_lt (ht : t.Complete height) : t.shape.arity < Word.limit := by
  have hle : t.shape.arity ≤ t.shape.arity ^ height := by
    calc t.shape.arity = t.shape.arity ^ 1 := (Nat.pow_one _).symm
      _ ≤ t.shape.arity ^ height :=
        Nat.pow_le_pow_right (by have := ht.two_le_arity; omega) ht.height_pos
  have hlt := ht.leaves_lt
  have hlimit : Word.halfLimit < Word.limit := by decide
  omega

/-- In a complete tree the path of every leaf leads to the root. -/
theorem leadsUp (ht : t.Complete height) {i : Nat} (hi : i < t.leaves.length) :
    (pathUp t.shape.arity t.rows i).LeadsUp t.shape t.rows height i t.leaves[i] := by
  have hlimit : Word.halfLimit < Word.limit - 1 := by decide
  have hlt := ht.leaves_lt
  have hlen := ht.length_leaves
  exact leadsUp_pathUp ht.two_le_arity ht.arity_lt hlen ht.canonical ht.rows_eq hi (by omega)

/-- The opening of every leaf of a complete tree is valid. -/
theorem verify_opening (ht : t.Complete height) {i : Nat} (hi : i < t.leaves.length) :
    (t.opening i).verify t.shape = .ok true := by
  rw [opening_eq t hi]
  exact (ht.leadsUp hi).verify_eq (ht.canonical _ (List.getElem_mem hi))

theorem position_opening (ht : t.Complete height) {i : Nat} (hi : i < t.leaves.length) :
    (t.opening i).position t.shape.arity = i :=
  (ht.leadsUp hi).position_eq

/-- The root is hashed from the topmost group, so it is canonical. -/
theorem isCanonical_root (ht : t.Complete height) : t.root.IsCanonical := by
  have hpos : 0 < t.leaves.length := by
    rw [ht.length_leaves]
    exact Nat.pow_pos (by have := ht.two_le_arity; omega)
  exact (ht.leadsUp hpos).isCanonical_apex ht.height_pos

/-- The openings of a complete tree have the length and the elements that are asked for. -/
theorem requireElements_opening (ht : t.Complete height) {i : Nat} (hi : i < t.leaves.length) :
    (t.opening i).requireElements t.shape.arity = .ok () := by
  rw [opening_eq t hi]
  exact (ht.leadsUp hi).requireElements_eq ht.height_pos (ht.canonical _ (List.getElem_mem hi))

/-- The path that is asked for has a step for each level: only one height has that many leaves. -/
theorem requireLevels_eq_ok_iff (ht : t.Complete height)
    (hrows : CountsRows t.shape.arity t.leaves.length) {o : Opening} :
    o.requireLevels t.shape.arity t.leaves.length = .ok () ↔ o.path.length = height := by
  obtain ⟨height', hpow, hrows⟩ := hrows
  have hheight : height' = height :=
    Nat.pow_right_injective ht.two_le_arity (hpow.symm.trans ht.length_leaves)
  rw [hheight] at hrows
  rw [Opening.requireLevels_of_rowCount hrows, Result.require_eq_ok_iff]

end Complete

/-- A complete tree of a shape over so many leaves. -/
structure Over (t : Tree) (shape : Shape) (count : Nat) : Prop where
  shape_eq : t.shape = shape
  length_leaves : t.leaves.length = count
  exists_complete : ∃ height, t.Complete height

namespace Over

variable {shape : Shape} {count i : Nat}

theorem lt_length (ht : t.Over shape count) (hi : i < count) : i < t.leaves.length := by
  rw [ht.length_leaves]
  exact hi

theorem isCanonical_root (ht : t.Over shape count) : t.root.IsCanonical := by
  obtain ⟨_, hcomplete⟩ := ht.exists_complete
  exact hcomplete.isCanonical_root

/-- A tree over `count` leaves opens each of them validly. -/
theorem verify_opening (ht : t.Over shape count) (hi : i < count) :
    (t.opening i).verify shape = .ok true := by
  obtain ⟨rfl, rfl, _, hcomplete⟩ := ht
  exact hcomplete.verify_opening hi

theorem position_opening (ht : t.Over shape count) (hi : i < count) :
    (t.opening i).position shape.arity = i := by
  obtain ⟨rfl, rfl, _, hcomplete⟩ := ht
  exact hcomplete.position_opening hi

theorem requireElements_opening (ht : t.Over shape count) (hi : i < count) :
    (t.opening i).requireElements shape.arity = .ok () := by
  obtain ⟨rfl, rfl, _, hcomplete⟩ := ht
  exact hcomplete.requireElements_opening hi

/-- The openings of a tree have the expected number of levels. -/
theorem requireLevels_opening (ht : t.Over shape count)
    (hrows : CountsRows shape.arity count) (hi : i < count) :
    (t.opening i).requireLevels shape.arity count = .ok () := by
  obtain ⟨rfl, rfl, _, hcomplete⟩ := ht
  exact (hcomplete.requireLevels_eq_ok_iff hrows).mpr (hcomplete.leadsUp hi).length_eq

/-- The rows of a tree of a supported arity are counted right. -/
theorem countsRows (ht : t.Over shape count) (harity : shape.arity ∈ [2, 4, 8, 16]) :
    CountsRows shape.arity count := by
  obtain ⟨rfl, rfl, _, hcomplete⟩ := ht
  rw [hcomplete.length_leaves]
  exact countsRows_pow harity hcomplete.leaves_lt

end Over

/-- A tree is built exactly if the leaves fill it, their number and the arity are powers of two,
and the nodes can be hashed. -/
theorem ofLeaves_eq_ok_iff {shape : Shape} {leaves : List Element} :
    ofLeaves shape leaves = .ok t ↔
      ∃ height upper, height? shape.arity leaves.length = some height ∧
        isPowerOfTwo leaves.length = true ∧ isPowerOfTwo shape.arity = true ∧
        rowsAbove shape height leaves = .ok upper ∧ t = ⟨shape, leaves, upper⟩ := by
  unfold ofLeaves
  rcases height? shape.arity leaves.length with _ | height
  · simp [refuse]
  · simp only [Result.bind_eq_ok_iff, Result.require_eq_ok_iff, Result.pure_eq_ok,
      Except.ok.injEq, Option.some.injEq]
    refine ⟨?_, ?_⟩
    · intro h
      obtain ⟨_, hsize, _, hbranches, upper, hupper, rfl⟩ := h
      exact ⟨height, upper, rfl, hsize, hbranches, hupper, rfl⟩
    · intro h
      obtain ⟨_, upper, rfl, hsize, hbranches, hupper, rfl⟩ := h
      exact ⟨(), hsize, (), hbranches, upper, hupper, rfl⟩

/-- A tree that is built over at least two canonical leaves is complete. -/
theorem over_of_ofLeaves {shape : Shape} {leaves : List Element}
    (htwo : 2 ≤ leaves.length) (hlt : leaves.length < Word.halfLimit)
    (hcanonical : ∀ e ∈ leaves, e.IsCanonical) (h : ofLeaves shape leaves = .ok t) :
    t.leaves = leaves ∧ t.Over shape leaves.length := by
  obtain ⟨height, upper, hheight, -, -, hupper, rfl⟩ := ofLeaves_eq_ok_iff.mp h
  obtain ⟨harity, hpos, hlen⟩ := eq_pow_of_height? htwo hheight
  exact ⟨rfl, rfl, rfl, height, harity, hpos, hlen ▸ hlt, hlen, hcanonical, hupper⟩

/-- A supported tree can be built over any power of the arity of canonical leaves. -/
theorem exists_ofLeaves {shape : Shape} {leaves : List Element} (hshape : shape.Supported)
    {height : Nat} (hheight : 1 ≤ height) (hlen : leaves.length = shape.arity ^ height)
    (hcanonical : ∀ e ∈ leaves, e.IsCanonical) : ∃ t, ofLeaves shape leaves = .ok t := by
  obtain ⟨bits, -, harity⟩ := exists_arity_eq_two_pow hshape.arity_mem
  obtain ⟨upper, hupper⟩ := exists_rowsAbove hshape.hashes hlen hcanonical
  have hfull : height? shape.arity leaves.length = some height := by
    rw [hlen]
    exact height?_pow hshape.two_le_arity hheight
  have hsize : isPowerOfTwo leaves.length = true := by
    rw [hlen, harity, ← Nat.pow_mul]
    exact isPowerOfTwo_pow _
  have hbranches : isPowerOfTwo shape.arity = true := by
    rw [harity]
    exact isPowerOfTwo_pow _
  exact ⟨_, ofLeaves_eq_ok_iff.mpr ⟨height, upper, hfull, hsize, hbranches, hupper, rfl⟩⟩

/-- Over canonical leaves a tree is built or refused, as long as its nodes can be hashed. -/
theorem neverAborts_ofLeaves {shape : Shape} (hshape : shape.Hashes) {leaves : List Element}
    (htwo : 2 ≤ leaves.length) (hcanonical : ∀ e ∈ leaves, e.IsCanonical) :
    Result.NeverAborts (ofLeaves shape leaves) := by
  unfold ofLeaves
  cases hheight : height? shape.arity leaves.length with
  | none => exact Result.neverAborts_refuse _
  | some height =>
    obtain ⟨-, -, hlen⟩ := eq_pow_of_height? htwo hheight
    obtain ⟨upper, hupper⟩ := exists_rowsAbove hshape hlen hcanonical
    refine (Result.neverAborts_require _ _).bind fun _ =>
      (Result.neverAborts_require _ _).bind fun _ => ?_
    rw [hupper]
    exact Result.neverAborts_ok _

/-- A complete tree has a node above its leaves, and that node was hashed. -/
theorem Complete.hashes (ht : t.Complete height) : t.shape.Hashes := by
  have htwo := ht.two_le_arity
  have hpos := ht.height_pos
  have hrows := ht.rows_eq
  have hlen : t.leaves.length = t.shape.arity ^ (height - 1) * t.shape.arity := by
    rw [ht.length_leaves, ← Nat.pow_succ, Nat.succ_eq_add_one, Nat.sub_add_cancel hpos]
  rw [← Nat.sub_add_cancel hpos] at hrows
  obtain ⟨above, _, habove, -, -⟩ := rowsAbove_succ_eq_ok_iff.mp hrows
  have hcount : 0 < t.shape.arity ^ (height - 1) := Nat.pow_pos (by omega)
  have hfirst : 0 < above.length := by
    rw [length_of_rowAbove (by omega) hlen habove]
    exact hcount
  exact Shape.hashes_of_node htwo (length_groupAt hlen hcount)
    (node_groupAt (by omega) hlen habove hfirst)

/-- Where a tree was built over canonical leaves, one can be built over any others, as many and as
canonical: what is asked of leaves concerns their number only. -/
theorem exists_ofLeaves_of_length_eq {shape : Shape} {leaves others : List Element}
    (htwo : 2 ≤ leaves.length) (hlt : leaves.length < Word.halfLimit)
    (hcanonical : ∀ e ∈ leaves, e.IsCanonical) (h : ofLeaves shape leaves = .ok t)
    (hlen : others.length = leaves.length) (hothers : ∀ e ∈ others, e.IsCanonical) :
    ∃ t', ofLeaves shape others = .ok t' := by
  obtain ⟨-, hover⟩ := over_of_ofLeaves htwo hlt hcanonical h
  obtain ⟨_, hcomplete⟩ := hover.exists_complete
  have hhashes := hcomplete.hashes
  rw [hover.shape_eq] at hhashes
  obtain ⟨height, _, hheight, hsize, hbranches, -, -⟩ := ofLeaves_eq_ok_iff.mp h
  obtain ⟨-, -, hpow⟩ := eq_pow_of_height? htwo hheight
  rw [← hlen] at hheight hsize hpow
  obtain ⟨upper, hupper⟩ := exists_rowsAbove hhashes hpow hothers
  exact ⟨_, ofLeaves_eq_ok_iff.mpr ⟨height, upper, hheight, hsize, hbranches, hupper, rfl⟩⟩

end Tree

end Replication.Merkle
