import Replication.Proofs.Merkle.Tree

/-!
# An opening is bound to the tree it opens

An opening of a complete tree's root is the one that is read off the tree at the same position,
unless hashing along its path hit the digest of a group of the tree with other children. Nothing
is assumed of the hash functions: a collision is a pair of two inputs that were hashed.
-/

namespace Replication

/-- Some input among `checked` has the digest of a different input among `built`. -/
def Collide {α β : Type} (digest : α → Result β) (checked built : List α) : Prop :=
  ∃ x ∈ checked, ∃ y ∈ built, x ≠ y ∧ ∃ d, digest x = .ok d ∧ digest y = .ok d

/-- Without a collision inputs with the same digest are the same. -/
theorem eq_of_not_collide {α β : Type} {digest : α → Result β} {checked built : List α}
    (h : ¬ Collide digest checked built) {x y : α} (hx : x ∈ checked) (hy : y ∈ built) {d : β}
    (hdx : digest x = .ok d) (hdy : digest y = .ok d) : x = y := by
  by_contra hne
  exact h ⟨x, hx, y, hy, hne, d, hdx, hdy⟩

/-- Without a collision among some inputs there is none among fewer of them. -/
theorem not_collide_mono {α β : Type} {digest : α → Result β} {checked built : List α}
    {checked' built' : List α} (h : ¬ Collide digest checked built)
    (hchecked : ∀ x ∈ checked', x ∈ checked) (hbuilt : ∀ y ∈ built', y ∈ built) :
    ¬ Collide digest checked' built' := by
  intro hcollide
  obtain ⟨x, hx, y, hy, hne, hd⟩ := hcollide
  exact h ⟨x, hchecked x hx, y, hbuilt y hy, hne, hd⟩

namespace Merkle

/-- The lists of children that are hashed on the way up a path. -/
def Path.hashed (shape : Shape) : Path → Element → List (List Element)
  | [], _ => []
  | step :: rest, node =>
    if step.Fits shape then
      step.children node ::
        match shape.family.node (step.children node) with
        | .ok parent => hashed shape rest parent
        | .error _ => []
    else []

/-- The lists of children that are hashed when an opening is verified. -/
def Opening.hashed (shape : Shape) (o : Opening) : List (List Element) :=
  if o.leaf.IsCanonical then o.path.hashed shape o.leaf else []

/-- The groups of all rows but the highest. -/
def hashedRows (arity : Nat) : List (List Element) → List (List Element)
  | row :: above :: rest => pieces arity row ++ hashedRows arity (above :: rest)
  | _ => []

/-- The lists of children that are hashed when a tree is built. -/
def Tree.hashed (t : Tree) : List (List Element) := hashedRows t.shape.arity t.rows

/-- The inputs hashed along a path are those of its first step and of the steps above. -/
theorem Path.hashed_cons {shape : Shape} {step : Step} {rest : Path} {node parent : Element}
    (hfits : step.Fits shape) (hparent : shape.family.node (step.children node) = .ok parent) :
    Path.hashed shape (step :: rest) node
      = step.children node :: Path.hashed shape rest parent := by
  rw [Path.hashed, if_pos hfits, hparent]

/-- A step with the children of a group, and its place in it, is the step read off the row. -/
theorem eq_stepAt_of_children {arity count : Nat} {row : List Element} {step : Step}
    {node : Element} (harity : 0 < arity) (hword : arity < Word.limit)
    (hlen : row.length = count * arity) {i : Nat} (hi : i < row.length)
    (hsiblings : step.siblings.length = arity - 1) (hindex : step.index.toNat = i % arity)
    (hchildren : step.children node = groupAt arity row (i / arity)) :
    node = row[i] ∧ step = stepAt arity row i := by
  have hlt := Nat.mod_lt i harity
  have hplace : i % arity < (groupAt arity row (i / arity)).length := by
    rw [length_groupAt hlen ((Nat.div_lt_iff_lt_mul harity).mpr (hlen ▸ hi))]
    exact hlt
  unfold Step.children at hchildren
  rw [hindex] at hchildren
  -- the children hold the node at its place and the siblings at all others
  have hnode : node = (groupAt arity row (i / arity))[i % arity] := by
    have hinsert : i % arity < (step.siblings.insertIdx (i % arity) node).length := by
      rw [hchildren]
      exact hplace
    have hself := List.getElem_insertIdx_self hinsert
    simp only [hchildren] at hself
    exact hself.symm
  have hothers : step.siblings = (groupAt arity row (i / arity)).eraseIdx (i % arity) := by
    rw [← hchildren, List.eraseIdx_insertIdx_self]
  have hindex' : step.index = (stepAt arity row i).index := by
    rw [← UInt64.toNat_inj, hindex, index_stepAt harity hword]
  refine ⟨?_, ?_⟩
  · rw [hnode, getElem_groupAt hi hplace]
  · cases step
    simp only [stepAt, Step.mk.injEq] at hothers hindex' ⊢
    exact ⟨hothers, hindex'⟩

/-- A path to the apex of rows is the one read off the rows at the position it leads to. The
induction is on the number of levels: the climb reaches the right node of the row above, so the
children hashed to it are its group. -/
theorem eq_pathUp_of_climb {shape : Shape} (harity : 2 ≤ shape.arity)
    (hword : shape.arity < Word.limit) {height : Nat} {row : List Element}
    {upper : List (List Element)} (hlen : row.length = shape.arity ^ height)
    (hrows : rowsAbove shape height row = .ok upper) {i : Nat} (hi : i < row.length)
    (hi' : i < Word.limit - 1) {path : Path} {leaf : Element} (hlength : path.length = height)
    (hclimb : path.climb shape leaf = .ok (some (apex (row :: upper))))
    (hposition : path.position shape.arity = i)
    (hcollide : ¬ Collide shape.family.node (path.hashed shape leaf)
      (hashedRows shape.arity (row :: upper))) :
    leaf = row[i] ∧ path = pathUp shape.arity (row :: upper) i := by
  induction height generalizing row upper i path leaf with
  | zero =>
    cases hrows
    have hsingle : row.length = 1 := hlen
    obtain ⟨root, rfl⟩ := List.length_eq_one_iff.mp hsingle
    have hnil := List.length_eq_zero_iff.mp hlength
    subst hnil
    have hzero : i = 0 := by omega
    subst hzero
    cases hclimb
    exact ⟨rfl, rfl⟩
  | succ height ih =>
    rw [Nat.pow_succ] at hlen
    obtain ⟨above, restRows, habove, hrestRows, rfl⟩ := rowsAbove_succ_eq_ok_iff.mp hrows
    have hpos : 0 < shape.arity := by omega
    have hlenAbove := length_of_rowAbove hpos hlen habove
    have hdiv := div_lt_length_of_rowAbove hpos hlen habove hi
    have hle : i / shape.arity ≤ i := Nat.div_le_self i shape.arity
    match path with
    | [] => cases hlength
    | step :: rest =>
      obtain ⟨hfits, parent, hparent, hrest⟩ := Path.climb_cons_eq_ok_some_iff.mp hclimb
      obtain ⟨hrestPosition, hindex⟩ :=
        (Path.position_cons_eq_iff hfits.2.1 hi').mp hposition
      rw [List.length_cons] at hlength
      rw [Path.hashed_cons hfits hparent] at hcollide
      have hgroups : hashedRows shape.arity (row :: above :: restRows)
          = pieces shape.arity row ++ hashedRows shape.arity (above :: restRows) := rfl
      rw [hgroups] at hcollide
      -- what is hashed further up collides with nothing in the rows further up
      have hbelow := not_collide_mono hcollide
        (fun x hx => List.mem_cons_of_mem _ hx) (fun y hy => List.mem_append_right _ hy)
      obtain ⟨hnode, hpath⟩ := ih hlenAbove hrestRows hdiv (by omega) (by omega) hrest
        hrestPosition hbelow
      -- the parent is node `i / arity` of the row above, and so is the hash of its group
      have hgroup : groupAt shape.arity row (i / shape.arity) ∈ pieces shape.arity row := by
        rw [pieces_eq_map_groupAt hpos hlen]
        exact List.mem_map_of_mem (List.mem_range.mpr (hlenAbove ▸ hdiv))
      have hchildren := eq_of_not_collide hcollide List.mem_cons_self
        (List.mem_append_left _ hgroup) hparent (hnode ▸ node_groupAt hpos hlen habove hdiv)
      obtain ⟨hleaf, hstep⟩ :=
        eq_stepAt_of_children hpos hword hlen hi hfits.1 hindex hchildren
      exact ⟨hleaf, by rw [hstep, hpath]; rfl⟩

/-- A valid opening of the root of a complete tree is the opening of the position it leads to. -/
theorem Tree.Complete.eq_opening {t : Tree} {height : Nat} (ht : t.Complete height) {o : Opening}
    {i : Nat} (hi : i < t.leaves.length) (hverify : o.verify t.shape = .ok true)
    (hroot : o.root = t.root) (hlength : o.path.length = height)
    (hposition : o.position t.shape.arity = i)
    (hcollide : ¬ Collide t.shape.family.node (o.hashed t.shape) t.hashed) :
    o = t.opening i := by
  obtain ⟨hcanonical, hclimb⟩ := Opening.verify_eq_ok_true_iff.mp hverify
  have hlimit : Word.halfLimit < Word.limit - 1 := by decide
  have hlt := ht.leaves_lt
  have hlen := ht.length_leaves
  rw [Opening.hashed, if_pos hcanonical] at hcollide
  rw [hroot] at hclimb
  obtain ⟨hleaf, hpath⟩ := eq_pathUp_of_climb ht.two_le_arity ht.arity_lt hlen ht.rows_eq hi
    (by omega) hlength hclimb hposition hcollide
  rw [← leaf_opening t hi] at hleaf
  cases o
  simp only [opening, Opening.mk.injEq] at hroot hleaf hpath ⊢
  exact ⟨hroot, hleaf, hpath⟩

/-- The same with the length of the path as it is asked for. -/
theorem Tree.Over.eq_opening {t : Tree} {shape : Shape} {count : Nat} (ht : t.Over shape count)
    (hrows : CountsRows shape.arity count) {o : Opening} {i : Nat} (hi : i < count)
    (hverify : o.verify shape = .ok true) (hroot : o.root = t.root)
    (hlevels : o.requireLevels shape.arity count = .ok ())
    (hposition : o.position shape.arity = i)
    (hcollide : ¬ Collide shape.family.node (o.hashed shape) t.hashed) : o = t.opening i := by
  obtain ⟨rfl, rfl, _, hcomplete⟩ := ht
  have hlength := (hcomplete.requireLevels_eq_ok_iff hrows).mp hlevels
  exact hcomplete.eq_opening hi hverify hroot hlength hposition hcollide

end Merkle

end Replication
