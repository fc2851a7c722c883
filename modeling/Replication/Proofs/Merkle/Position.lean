import Replication.Proofs.Merkle.Binding
import Replication.Proofs.Merkle.Digits
import Replication.Proofs.Merkle.Totality

/-!
# Two openings of one position

Two valid openings of the same root at the same position, with paths of the same length, are the
same opening, unless at some level both hashed different children to the same parent. The argument
goes from the root down: a common parent has common children unless they collide, the place of the
node among the children is given by the position, and so the nodes and their siblings agree one
level below. Nothing is said of where the openings come from. Main statement: `position_binding`.
-/

namespace Replication

/-- Somewhere in two lists different inputs at the same place have the same digest. -/
def CollideInPlace {α β : Type} (digest : α → Result β) (first second : List α) : Prop :=
  ∃ inputs ∈ first.zip second, inputs.1 ≠ inputs.2 ∧
    ∃ d, digest inputs.1 = .ok d ∧ digest inputs.2 = .ok d

/-- A collision at the same step is a collision among all steps. -/
theorem CollideInPlace.collide {α β : Type} {digest : α → Result β} {first second : List α}
    (h : CollideInPlace digest first second) : Collide digest first second := by
  obtain ⟨inputs, hinputs, hne, hdigest⟩ := h
  obtain ⟨hfirst, hsecond⟩ := List.of_mem_zip hinputs
  exact ⟨_, hfirst, _, hsecond, hne, hdigest⟩

namespace Merkle

variable {shape : Shape}

/-- Children at a known place determine the node there and its siblings. -/
theorem Step.eq_of_children {step step' : Step} {node node' : Element} (hfits : step.Fits shape)
    (hfits' : step'.Fits shape) (hindex : step.index = step'.index)
    (h : step.children node = step'.children node') : node = node' ∧ step = step' := by
  have hle := hfits.index_le
  have hle' := hfits'.index_le
  unfold children at h
  rw [← hindex] at h hle'
  have hnode : some node = some node' := by
    have hself := List.getElem?_insertIdx_self (l := step.siblings) (x := node)
      (i := step.index.toNat)
    rw [h, List.getElem?_insertIdx_self, if_pos hle, if_pos hle'] at hself
    exact hself.symm
  have hsiblings : step.siblings = step'.siblings := by
    have hself := List.eraseIdx_insertIdx_self (l := step.siblings) (i := step.index.toNat) node
    rw [h, List.eraseIdx_insertIdx_self] at hself
    exact hself.symm
  refine ⟨Option.some.inj hnode, ?_⟩
  cases step
  cases step'
  cases hsiblings
  cases hindex
  rfl

namespace Path

variable {path path' : Path} {leaf leaf' root : Element}

theorem fits_of_climb (h : path.climb shape leaf = .ok (some root)) :
    ∀ step ∈ path, step.Fits shape := by
  induction path generalizing leaf with
  | nil => simp
  | cons step rest ih =>
    obtain ⟨hfits, parent, -, hrest⟩ := climb_cons_eq_ok_some_iff.mp h
    rw [List.forall_mem_cons]
    exact ⟨hfits, ih hrest⟩

/-- A path all of whose steps fit leads from every canonical node to a root. -/
theorem exists_climb_of_fits (hshape : shape.Hashes) (hfits : ∀ step ∈ path, step.Fits shape)
    (hleaf : leaf.IsCanonical) : ∃ root, path.climb shape leaf = .ok (some root) := by
  induction path generalizing leaf with
  | nil => exact ⟨leaf, rfl⟩
  | cons step rest ih =>
    rw [List.forall_mem_cons] at hfits
    obtain ⟨parent, hparent⟩ := hshape.exists_node (hfits.1.length_children leaf)
      (hfits.1.isCanonical_children hleaf)
    obtain ⟨root, hroot⟩ := ih hfits.2 (HashFamily.isCanonical_of_node hparent)
    exact ⟨root, climb_cons_eq_ok_some_iff.mpr ⟨hfits.1, parent, hparent, hroot⟩⟩

/-- The position a path leads to gives the place at every level, unless it is the largest word. -/
theorem map_index_eq {arity : Nat} (hlength : path.length = path'.length)
    (hindex : ∀ step ∈ path, step.index.toNat < arity)
    (hindex' : ∀ step ∈ path', step.index.toNat < arity) {i : Nat} (hi : i < Word.limit - 1)
    (hposition : path.position arity = i) (hposition' : path'.position arity = i) :
    path.map Step.index = path'.map Step.index := by
  apply map_index_eq_of_number_eq hlength hindex hindex'
  match path, path', hlength with
  | [], [], _ => rfl
  | step :: _, _ :: _, _ =>
    -- below the largest word nothing was capped
    have hplace := hindex step List.mem_cons_self
    rw [position_eq_min (by omega)] at hposition hposition'
    omega

/-- Two climbs to the same root by the same places start at the same leaf and pass the same
siblings, unless children collide at some level. -/
theorem eq_of_climb (hindex : path.map Step.index = path'.map Step.index)
    (hclimb : path.climb shape leaf = .ok (some root))
    (hclimb' : path'.climb shape leaf' = .ok (some root))
    (hcollide : ¬ CollideInPlace shape.family.node (path.hashed shape leaf)
      (path'.hashed shape leaf')) : leaf = leaf' ∧ path = path' := by
  induction path generalizing path' leaf leaf' with
  | nil =>
    rw [List.map_eq_nil_iff.mp hindex.symm] at hclimb' ⊢
    cases hclimb
    cases hclimb'
    exact ⟨rfl, rfl⟩
  | cons step rest ih =>
    match path' with
    | [] => cases hindex
    | step' :: rest' =>
      rw [List.map_cons, List.map_cons, List.cons.injEq] at hindex
      obtain ⟨hfits, parent, hparent, hrest⟩ := climb_cons_eq_ok_some_iff.mp hclimb
      obtain ⟨hfits', parent', hparent', hrest'⟩ := climb_cons_eq_ok_some_iff.mp hclimb'
      rw [hashed_cons hfits hparent, hashed_cons hfits' hparent'] at hcollide
      -- further up the two climbs agree, so the children here are hashed to the same parent
      obtain ⟨rfl, rfl⟩ := ih hindex.2 hrest hrest' fun h => by
        obtain ⟨inputs, hinputs, hinputs'⟩ := h
        exact hcollide ⟨inputs, List.mem_cons_of_mem _ hinputs, hinputs'⟩
      have hchildren : step.children leaf = step'.children leaf' := by
        by_contra hne
        exact hcollide ⟨_, List.mem_cons_self, hne, parent, hparent, hparent'⟩
      obtain ⟨hleaf, hstep⟩ := Step.eq_of_children hfits hfits' hindex.1 hchildren
      exact ⟨hleaf, by rw [hstep]⟩

end Path

namespace Opening

variable {o o' : Opening}

theorem fits_of_verify (h : o.verify shape = .ok true) : ∀ step ∈ o.path, step.Fits shape :=
  Path.fits_of_climb (verify_eq_ok_true_iff.mp h).2

/-- The indices of a valid opening are below the arity. -/
theorem index_lt_of_verify (h : o.verify shape = .ok true) :
    ∀ step ∈ o.path, step.index.toNat < shape.arity :=
  fun step hstep => (fits_of_verify h step hstep).2.1

/-- Two valid openings of the same places under one root are the same, or at some level they
hash different children to the same parent. -/
theorem eq_or_collideInPlace (hverify : o.verify shape = .ok true)
    (hverify' : o'.verify shape = .ok true) (hroot : o.root = o'.root)
    (hindex : o.path.map Step.index = o'.path.map Step.index) :
    o = o' ∨ CollideInPlace shape.family.node (o.hashed shape) (o'.hashed shape) := by
  by_cases hcollide : CollideInPlace shape.family.node (o.hashed shape) (o'.hashed shape)
  · exact .inr hcollide
  · obtain ⟨hcanonical, hclimb⟩ := verify_eq_ok_true_iff.mp hverify
    obtain ⟨hcanonical', hclimb'⟩ := verify_eq_ok_true_iff.mp hverify'
    rw [hashed, hashed, if_pos hcanonical, if_pos hcanonical'] at hcollide
    obtain ⟨hleaf, hpath⟩ := Path.eq_of_climb hindex (hroot ▸ hclimb) hclimb' hcollide
    left
    cases o
    cases o'
    cases hroot
    cases hleaf
    cases hpath
    rfl

/-- Two valid openings of one position under one root, unless children collide on the way. -/
theorem eq_of_verify (hverify : o.verify shape = .ok true) (hverify' : o'.verify shape = .ok true)
    (hroot : o.root = o'.root) (hlength : o.path.length = o'.path.length) {i : Nat}
    (hi : i < Word.limit - 1) (hposition : o.position shape.arity = i)
    (hposition' : o'.position shape.arity = i)
    (hcollide : ¬ Collide shape.family.node (o.hashed shape) (o'.hashed shape)) : o = o' := by
  have hindex := Path.map_index_eq hlength (index_lt_of_verify hverify)
    (index_lt_of_verify hverify') hi hposition hposition'
  rcases eq_or_collideInPlace hverify hverify' hroot hindex with heq | h
  · exact heq
  · exact absurd h.collide hcollide

/-- The opening with its root left out. -/
def eraseRoot (o : Opening) : Opening := { o with root := .zero }

/-- The root of a valid opening is the one that its leaf and path lead to. -/
theorem eq_of_eraseRoot (hverify : o.verify shape = .ok true)
    (hverify' : o'.verify shape = .ok true) (h : o.eraseRoot = o'.eraseRoot) : o = o' := by
  obtain ⟨-, hclimb⟩ := verify_eq_ok_true_iff.mp hverify
  obtain ⟨-, hclimb'⟩ := verify_eq_ok_true_iff.mp hverify'
  cases o
  cases o'
  simp only [eraseRoot, mk.injEq, true_and] at h
  obtain ⟨rfl, rfl⟩ := h
  rw [hclimb] at hclimb'
  cases hclimb'
  rfl

/-- A position is opened in one way only, for any number of levels whose positions are words: with
the root, the number of levels and the position, a valid opening has its leaf and every sibling and
place, unless at some level it hashes other children to the same parent. -/
theorem position_binding (hverify : o.verify shape = .ok true)
    (hverify' : o'.verify shape = .ok true) (hroot : o.root = o'.root)
    (hlength : o.path.length = o'.path.length)
    (hbound : shape.arity ^ o.path.length ≤ Word.limit)
    (hposition : o.position shape.arity = o'.position shape.arity) :
    (o.leaf = o'.leaf ∧ o.path = o'.path) ∨
      CollideInPlace shape.family.node (o.hashed shape) (o'.hashed shape) := by
  have hlt := index_lt_of_verify hverify
  have hlt' := index_lt_of_verify hverify'
  -- no position of so many levels is capped, not even the largest word
  have hnumber : o.path.number shape.arity = o'.path.number shape.arity := by
    rw [← Path.position_eq_number hlt hbound, ← Path.position_eq_number hlt' (hlength ▸ hbound)]
    exact hposition
  have hindex := Path.map_index_eq_of_number_eq hlength hlt hlt' hnumber
  rcases eq_or_collideInPlace hverify hverify' hroot hindex with rfl | hcollide
  · exact .inl ⟨rfl, rfl⟩
  · exact .inr hcollide

/-- The path from the last of `16 ^ 16` leaves, all its siblings being zero. -/
def lastPath : Path := List.replicate 16 ⟨List.replicate 15 .zero, 15⟩

/-- The last of `16 ^ 16` positions is the largest word, and its openings are bound as well. -/
theorem position_binding_largest_word : ∃ o o' : Opening, o.path = lastPath ∧ o'.path = lastPath ∧
    o.verify ⟨.sha256, 16⟩ = .ok true ∧ o'.verify ⟨.sha256, 16⟩ = .ok true ∧ o.root = o'.root ∧
      16 ^ o.path.length ≤ Word.limit ∧ o.position 16 = Word.limit - 1 ∧
      o'.position 16 = Word.limit - 1 ∧
      ((o.leaf = o'.leaf ∧ o.path = o'.path) ∨
        CollideInPlace HashFamily.sha256.node (o.hashed ⟨.sha256, 16⟩)
          (o'.hashed ⟨.sha256, 16⟩)) := by
  have hfits : ∀ step ∈ lastPath, step.Fits ⟨.sha256, 16⟩ := by decide
  have hzero : Element.zero.IsCanonical := by decide
  obtain ⟨root, hroot⟩ :=
    Path.exists_climb_of_fits (Shape.Supported.hashes (by decide)) hfits hzero
  have hverify : (Opening.mk root .zero lastPath).verify ⟨.sha256, 16⟩ = .ok true :=
    verify_eq_ok_true_iff.mpr ⟨hzero, hroot⟩
  have hbound : 16 ^ lastPath.length ≤ Word.limit := by decide
  have hposition : lastPath.position 16 = Word.limit - 1 := by decide +kernel
  exact ⟨⟨root, .zero, lastPath⟩, ⟨root, .zero, lastPath⟩, rfl, rfl, hverify, hverify, rfl, hbound,
    hposition, hposition, position_binding hverify hverify rfl rfl hbound rfl⟩

end Opening

end Merkle

end Replication
