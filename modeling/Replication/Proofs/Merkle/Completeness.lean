import Replication.Merkle.FlatOpening
import Replication.Proofs.Merkle.Tree

/-!
# Every leaf of a full tree can be opened, at its own position only

A supported tree can be built over any power of the arity of canonical leaves, and every leaf has an
opening that passes every check there is, for its own position and its own leaf and for no other
(`Tree.exists_opensLeaf`).

The store of a tree lists an opening in one row: the leaf, the siblings of every row on the way up,
and the root, beside the places in their groups. Cut into groups of siblings again, that row is the
path that was read off the tree (`Tree.openAt_eq_toOpening`).
-/

namespace Replication.Merkle

/-! ## The opening in one row -/

/-- The siblings of position `i` of the lowest row, then those of every node above it. -/
def siblingsUp (arity : Nat) : List (List Element) → Nat → List Element
  | row :: above :: rest, i =>
    (groupAt arity row (i / arity)).eraseIdx (i % arity)
      ++ siblingsUp arity (above :: rest) (i / arity)
  | _, _ => []

/-- The place of position `i` of the lowest row in its group, then that of every node above it. -/
def placesUp (arity : Nat) : List (List Element) → Nat → List UInt64
  | _ :: above :: rest, i => (i % arity).toUInt64 :: placesUp arity (above :: rest) (i / arity)
  | _, _ => []

/-- The flat opening of a position: the leaf, all siblings from the lowest row up, the root. -/
def Tree.flatAt (t : Tree) (i : Nat) : Result FlatOpening :=
  match t.leaves[i]? with
  | some leaf =>
    FlatOpening.new t.shape.arity .base
      (leaf :: siblingsUp t.shape.arity t.rows i ++ [t.root]) (placesUp t.shape.arity t.rows i)
  | none => refuse (.outOfBounds i t.leafCount)

/-- The siblings on the way up are those of the path's steps, from the leaf to the root. -/
theorem siblingsUp_eq_flatten {arity : Nat} (rows : List (List Element)) (i : Nat) :
    siblingsUp arity rows i = ((pathUp arity rows i).map Step.siblings).flatten := by
  induction rows generalizing i with
  | nil => rfl
  | cons row rest ih =>
    match rest with
    | [] => rfl
    | above :: rest =>
      rw [siblingsUp, ih]
      rfl

theorem placesUp_eq_map {arity : Nat} (rows : List (List Element)) (i : Nat) :
    placesUp arity rows i = (pathUp arity rows i).map Step.index := by
  induction rows generalizing i with
  | nil => rfl
  | cons row rest ih =>
    match rest with
    | [] => rfl
    | above :: rest =>
      rw [placesUp, ih]
      rfl

section Flat

variable {arity : Nat} {path : Path}

/-- A path carries one group of siblings per level, each short of the node itself. -/
theorem length_siblings (h : ∀ step ∈ path, step.siblings.length = arity - 1) :
    ((path.map Step.siblings).flatten).length = path.length * (arity - 1) := by
  induction path with
  | nil => simp
  | cons step rest ih =>
    rw [List.forall_mem_cons] at h
    rw [List.map_cons, List.flatten_cons, List.length_append, h.1, ih h.2, List.length_cons,
      Nat.succ_mul, Nat.add_comm]

/-- A row with all siblings of every step is cut into the steps it was made of. -/
theorem zip_pieces_siblings (harity : 2 ≤ arity)
    (h : ∀ step ∈ path, step.siblings.length = arity - 1) :
    ((pieces (arity - 1) (path.map Step.siblings).flatten).zip (path.map Step.index)).map
      (fun (group, index) => Step.mk group index) = path := by
  have hgroups : ∀ group ∈ path.map Step.siblings, group.length = arity - 1 :=
    List.forall_mem_map.mpr h
  rw [pieces_flatten (by omega) hgroups, List.zip_map', List.map_map]
  exact List.map_id path

/-- Between the leaf and the root of a flat opening lie the siblings and nothing else. -/
theorem FlatOpening.toOpening_mk {root leaf : Element} {inner : List Element}
    {indices : List UInt64} (h : inner.length = indices.length * (arity - 1)) :
    toOpening arity ⟨.base, leaf :: inner ++ [root], indices⟩ = .ok ⟨root, leaf,
      ((pieces (arity - 1) inner).zip indices).map fun (group, index) => ⟨group, index⟩⟩ := by
  have hlen : (leaf :: inner ++ [root]).length = inner.length + 2 := by simp
  have hinner : ((leaf :: inner ++ [root]).drop 1).take inner.length = inner := by simp
  have hlast : (leaf :: inner ++ [root]).getLastD .zero = root := by
    rw [List.getLastD_eq_getLast?, List.getLast?_concat]
    rfl
  unfold toOpening
  simp only [hlen, hlast, Nat.add_sub_cancel, hinner, ← h, Nat.le_add_left, and_self,
    Result.require_of, Result.ok_bind]
  rfl

/-- Laying a path out in a row and reading the row again gives the path back. -/
theorem FlatOpening.new_bind_toOpening (harity : 2 ≤ arity) (hne : path ≠ []) (root leaf : Element)
    (h : ∀ step ∈ path, step.siblings.length = arity - 1) :
    new arity .base (leaf :: (path.map Step.siblings).flatten ++ [root]) (path.map Step.index)
      >>= toOpening arity = .ok ⟨root, leaf, path⟩ := by
  have hinner := length_siblings h
  have hpos : 0 < path.length * (arity - 1) :=
    Nat.mul_pos (List.length_pos_iff.mpr hne) (by omega)
  have hlen : (leaf :: (path.map Step.siblings).flatten ++ [root]).length
      = 2 + (arity - 1) * (path.map Step.index).length := by
    rw [List.length_append, List.length_cons, hinner, List.length_map, Nat.mul_comm]
    simp
    omega
  have hnew : new arity .base (leaf :: (path.map Step.siblings).flatten ++ [root])
      (path.map Step.index)
        = .ok ⟨.base, leaf :: (path.map Step.siblings).flatten ++ [root], path.map Step.index⟩ := by
    rw [new, if_pos rfl, Result.require_of, Result.ok_bind, Result.require_of hlen]
    · rfl
    · rw [hlen, List.length_map, Nat.mul_comm]
      omega
  rw [hnew, Result.ok_bind, toOpening_mk (by rw [hinner, List.length_map]),
    zip_pieces_siblings harity h]

end Flat

/-! ## What an opening is good for -/

/-- The opening passes every check that is made of an opening of this leaf at this position in a
tree with this root and height, and no check of another position or another leaf. -/
structure Opening.OpensLeaf (shape : Shape) (height : Nat) (root leaf : Element) (i : Nat)
    (o : Opening) : Prop where
  root_eq : o.root = root
  leaf_eq : o.leaf = leaf
  position_eq : o.position shape.arity = i
  opensAt_iff : ∀ j, o.opensAt shape.arity j ↔ j = i
  verify_eq : o.verify shape = .ok true
  verifyAt_eq : ∀ j, o.verifyAt shape j = .ok (decide (j = i))
  verifyLeaf_eq : ∀ e, o.verifyLeaf shape e = .ok (decide (leaf = e))
  requireElements_eq : o.requireElements shape.arity = .ok ()
  requireLevels_eq : o.requireLevels shape.arity (shape.arity ^ height) = .ok ()
  /-- A tree with one more row is told apart by the length of the path. -/
  requireLevels_above : shape.arity ^ (height + 1) < 2 ^ 63 →
    o.requireLevels shape.arity (shape.arity ^ (height + 1))
      = refuse (.pathLength (height + 1) height)

section Checks

variable {shape : Shape} {o : Opening}

/-- A valid opening verifies at its own position and at no other. -/
theorem Opening.verifyAt_eq_of_verify (h : o.verify shape = .ok true) (j : Nat) :
    o.verifyAt shape j = .ok (decide (j = o.position shape.arity)) := by
  rw [verifyAt, h]
  rfl

theorem Opening.verifyLeaf_eq_of_verify (h : o.verify shape = .ok true) (e : Element) :
    o.verifyLeaf shape e = .ok (decide (o.leaf = e)) := by
  rw [verifyLeaf, h]
  rfl

/-- An opening whose path leads up the rows of a tree opens its leaf. -/
theorem Path.LeadsUp.opensLeaf {rows : List (List Element)} {height i : Nat} {leaf : Element}
    {path : Path} (h : path.LeadsUp shape rows height i leaf) (harity : shape.arity ∈ [2, 4, 8, 16])
    (hheight : 1 ≤ height) (hleaf : leaf.IsCanonical)
    (hrows : rowCount shape.arity (shape.arity ^ height) = .ok (height + 1)) :
    (Opening.mk (apex rows) leaf path).OpensLeaf shape height (apex rows) leaf i := by
  have hverify := h.verify_eq hleaf
  have hposition : (Opening.mk (apex rows) leaf path).position shape.arity = i := h.position_eq
  refine ⟨rfl, rfl, hposition, ?_, hverify, ?_, ?_, ?_, ?_, ?_⟩
  · intro j
    rw [Opening.opensAt, hposition]
    exact eq_comm
  · intro j
    rw [Opening.verifyAt_eq_of_verify hverify, hposition]
  · intro e
    exact Opening.verifyLeaf_eq_of_verify hverify e
  · exact h.requireElements_eq hheight hleaf
  · rw [Opening.requireLevels_of_rowCount hrows, Result.require_of h.length_eq]
  · intro hlt
    rw [Opening.requireLevels_of_rowCount (rowCount_pow_of_lt harity hlt), h.length_eq]
    exact if_neg (by omega)

end Checks

namespace Tree

variable {shape : Shape}

/-- The opening that is read off a tree is the one its store lists in a row. -/
theorem openAt_eq_toOpening {t : Tree} {height i : Nat} (harity : 2 ≤ t.shape.arity)
    (hheight : 1 ≤ height)
    (h : ∀ hi : i < t.leaves.length,
      (pathUp t.shape.arity t.rows i).LeadsUp t.shape t.rows height i t.leaves[i]) :
    t.openAt i = t.flatAt i >>= FlatOpening.toOpening t.shape.arity := by
  unfold openAt flatAt
  by_cases hi : i < t.leaves.length
  · have hpath := h hi
    have hne : pathUp t.shape.arity t.rows i ≠ [] := by
      apply List.ne_nil_of_length_pos
      rw [hpath.length_eq]
      omega
    rw [List.getElem?_eq_getElem hi]
    simp only [siblingsUp_eq_flatten, placesUp_eq_map]
    rw [FlatOpening.new_bind_toOpening harity hne]
    intro step hstep
    exact (hpath.fits step hstep).1
  · rw [List.getElem?_eq_none (by omega)]
    rfl

/-- Over any power of the arity of canonical leaves a tree is built, each leaf has an opening that
opens this leaf at this position only, and behind the leaves there is nothing to open. -/
theorem exists_opensLeaf {leaves : List Element} {height : Nat} (hshape : shape.Supported)
    (hheight : 1 ≤ height) (hlen : leaves.length = shape.arity ^ height)
    (hcanonical : ∀ e ∈ leaves, e.IsCanonical)
    (hrows : Merkle.rowCount shape.arity (shape.arity ^ height) = .ok (height + 1)) :
    ∃ t, ofLeaves shape leaves = .ok t ∧
      (∀ i (hi : i < leaves.length), i < Word.limit →
        ∃ o, t.openAt i = .ok o ∧ t.flatAt i >>= FlatOpening.toOpening shape.arity = .ok o ∧
          o.OpensLeaf shape height t.root leaves[i] i) ∧
      ∀ i, leaves.length ≤ i → t.openAt i = refuse (.outOfBounds i leaves.length) := by
  have harity := hshape.two_le_arity
  have hword : shape.arity < Word.limit := by
    have hmem := hshape.arity_mem
    simp only [List.mem_cons, List.not_mem_nil, or_false] at hmem
    have hlimit : 16 < Word.limit := by decide
    omega
  obtain ⟨t, ht⟩ := exists_ofLeaves hshape hheight hlen hcanonical
  obtain ⟨_, upper, hfull, -, -, hupper, rfl⟩ := ofLeaves_eq_ok_iff.mp ht
  -- the height the tree was built to is the exponent of its number of leaves
  rw [hlen, height?_pow harity hheight, Option.some.injEq] at hfull
  subst hfull
  refine ⟨_, ht, ?_, ?_⟩
  · intro i hi hi'
    have hpath := leadsUp_pathUp harity hword hlen hcanonical hupper hi hi'
    have hopen := openAt_eq (⟨shape, leaves, upper⟩ : Tree) hi
    rw [opening_eq _ hi] at hopen
    refine ⟨_, hopen, ?_, ?_⟩
    · rw [← hopen]
      exact (openAt_eq_toOpening harity hheight fun _ => hpath).symm
    · exact hpath.opensLeaf hshape.arity_mem hheight (hcanonical _ (List.getElem_mem hi)) hrows
  · intro i hi
    rw [openAt, List.getElem?_eq_none hi]
    rfl

/-- So many leaves, each the scalar of its position. -/
def numberedLeaves (count : Nat) : List Element :=
  (List.range count).map fun i => Element.ofScalar (Fin.ofNat modulus i)

theorem isCanonical_numberedLeaves (count : Nat) : ∀ e ∈ numberedLeaves count, e.IsCanonical := by
  intro e he
  obtain ⟨i, -, rfl⟩ := List.mem_map.mp he
  exact Element.isCanonical_ofScalar _

/-- In two levels of eight, position 53 is place 5 of group 6. -/
theorem exists_opensLeaf_octal : ∃ t, ofLeaves ⟨.poseidon, 8⟩ (numberedLeaves 64) = .ok t ∧
    (∃ o, t.openAt 53 = .ok o ∧
      o.OpensLeaf ⟨.poseidon, 8⟩ 2 t.root (numberedLeaves 64)[53] 53) ∧
    t.openAt 64 = refuse (.outOfBounds 64 64) := by
  have hshape : Shape.Supported ⟨.poseidon, 8⟩ := by decide
  have hlen : (numberedLeaves 64).length = 8 ^ 2 := by decide
  obtain ⟨t, ht, hinside, hbehind⟩ :=
    exists_opensLeaf hshape (by decide) hlen (isCanonical_numberedLeaves 64)
      (rowCount_pow_of_lt hshape.arity_mem (by decide))
  obtain ⟨o, hopen, -, hopens⟩ := hinside 53 (by rw [hlen]; decide) (by decide)
  exact ⟨t, ht, ⟨o, hopen, hopens⟩, hbehind 64 hlen.le⟩

end Tree

end Replication.Merkle
