import Mathlib.Data.List.Forall2
import Replication.Bytes

/-!
# Cutting lists into pieces

A list whose length is a multiple of the size of a piece is cut into full pieces only. Cutting and
joining are inverse: `flatten_pieces` and `pieces_flatten`; piece `i` holds the elements from
position `i * size` on: `pieces_eq_map_range`.
-/

namespace Replication

variable {α : Type} {size : Nat}

/-- The bound on the number of pieces does not matter once it is at least the length. -/
theorem piecesUpTo_of_length_le (hsize : 0 < size) {count : Nat} {xs : List α}
    (h : xs.length ≤ count) : piecesUpTo size count xs = pieces size xs := by
  unfold pieces
  induction count using Nat.strongRecOn generalizing xs with
  | ind count ih =>
    match count, xs with
    | 0, [] => rfl
    | _ + 1, [] => rfl
    | count + 1, x :: xs =>
      rw [List.length_cons] at h
      -- both bounds leave enough pieces for what follows the first one
      have hrest : ((x :: xs).drop size).length ≤ xs.length := by
        rw [List.length_drop, List.length_cons]
        omega
      rw [List.length_cons, piecesUpTo, piecesUpTo, ih count (by omega) (by omega)]
      rw [ih xs.length (by omega) hrest]

/-- A full piece at the front is the first piece. -/
theorem pieces_append (hsize : 0 < size) {piece : List α} (hpiece : piece.length = size)
    (rest : List α) : pieces size (piece ++ rest) = piece :: pieces size rest := by
  match piece with
  | [] =>
    rw [List.length_nil] at hpiece
    omega
  | x :: xs =>
    rw [List.length_cons] at hpiece
    -- `rest` is left with a bound from the whole list, larger than its own
    have htake : (x :: (xs ++ rest)).take size = x :: xs := by
      rw [← List.cons_append, ← hpiece, ← List.length_cons (a := x), List.take_left]
    have hdrop : (x :: (xs ++ rest)).drop size = rest := by
      rw [← List.cons_append, ← hpiece, ← List.length_cons (a := x), List.drop_left]
    rw [List.cons_append]
    unfold pieces
    rw [List.length_cons, piecesUpTo, htake, hdrop]
    rw [piecesUpTo_of_length_le hsize (by rw [List.length_append]; omega)]
    rfl

/-- Joining the pieces of a list gives the list. -/
theorem flatten_pieces (hsize : 0 < size) (xs : List α) : (pieces size xs).flatten = xs := by
  -- `pieces` bounds the number of cuts by the length, so the induction needs any such bound
  have hbounded : ∀ count (ys : List α), ys.length ≤ count →
      (piecesUpTo size count ys).flatten = ys := by
    intro count
    induction count with
    | zero =>
      intro ys h
      rw [List.length_eq_zero_iff.mp (Nat.le_zero.mp h)]
      rfl
    | succ count ih =>
      intro ys h
      match ys with
      | [] => rfl
      | y :: ys =>
        rw [List.length_cons] at h
        rw [piecesUpTo, List.flatten_cons, ih _ (by rw [List.length_drop, List.length_cons]; omega)]
        exact List.take_append_drop size (y :: ys)
  exact hbounded xs.length xs (Nat.le_refl _)

/-- Full pieces are found again after joining them. -/
theorem pieces_flatten (hsize : 0 < size) {groups : List (List α)}
    (h : ∀ group ∈ groups, group.length = size) : pieces size groups.flatten = groups := by
  induction groups with
  | nil => rfl
  | cons group rest ih =>
    rw [List.flatten_cons, pieces_append hsize (h group List.mem_cons_self),
      ih fun g hg => h g (List.mem_cons_of_mem group hg)]

theorem pieces_one (xs : List α) : pieces 1 xs = xs.map fun x => [x] := by
  have hgroups : ∀ group ∈ xs.map fun x => [x], group.length = 1 := by simp
  have hflat : (xs.map fun x => [x]).flatten = xs := by
    rw [← List.flatMap_def, List.flatMap_singleton']
  conv => lhs; rw [← hflat]
  exact pieces_flatten (by decide) hgroups

/-- Piece `i` of a list that is cut into full pieces. -/
theorem pieces_eq_map_range (hsize : 0 < size) {count : Nat} {xs : List α}
    (h : xs.length = count * size) :
    pieces size xs = (List.range count).map fun i => (xs.drop (i * size)).take size := by
  induction count generalizing xs with
  | zero =>
    rw [Nat.zero_mul] at h
    rw [List.length_eq_zero_iff.mp h]
    rfl
  | succ count ih =>
    rw [Nat.succ_mul] at h
    have hfirst : (xs.take size).length = size := by
      rw [List.length_take]
      omega
    have hrest : (xs.drop size).length = count * size := by
      rw [List.length_drop]
      omega
    -- with the first piece cut off, the others start one size earlier
    have hsplit := pieces_append hsize hfirst (xs.drop size)
    rw [List.take_append_drop] at hsplit
    rw [hsplit, ih hrest, List.range_succ_eq_map, List.map_cons, List.map_map]
    rw [Nat.zero_mul, List.drop_zero]
    congr 1
    apply List.map_congr_left
    intro i _
    show ((xs.drop size).drop (i * size)).take size = (xs.drop ((i + 1) * size)).take size
    rw [List.drop_drop, Nat.succ_mul, Nat.add_comm]

/-- When the size divides the length, every piece has the full size. -/
theorem length_of_mem_pieces (hsize : 0 < size) {count : Nat} {xs : List α}
    (h : xs.length = count * size) {piece : List α} (hpiece : piece ∈ pieces size xs) :
    piece.length = size := by
  rw [pieces_eq_map_range hsize h] at hpiece
  obtain ⟨i, hi, rfl⟩ := List.mem_map.mp hpiece
  have hle : (i + 1) * size ≤ count * size := Nat.mul_le_mul_right _ (List.mem_range.mp hi)
  rw [Nat.succ_mul] at hle
  rw [List.length_take, List.length_drop, h]
  omega

/-- Where a list is cut does not depend on its elements. -/
theorem pieces_map {β : Type} (f : α → β) (size : Nat) (xs : List α) :
    pieces size (xs.map f) = (pieces size xs).map (List.map f) := by
  have hbounded : ∀ count (ys : List α),
      piecesUpTo size count (ys.map f) = (piecesUpTo size count ys).map (List.map f) := by
    intro count
    induction count with
    | zero => exact fun _ => rfl
    | succ count ih =>
      intro ys
      match ys with
      | [] => rfl
      | y :: ys =>
        rw [List.map_cons, piecesUpTo, piecesUpTo, List.map_cons, ← List.map_cons, ← List.map_take,
          ← List.map_drop, ih]
  unfold pieces
  rw [List.length_map, hbounded]

/-- Lists of one length are cut into pieces of the same lengths. -/
theorem map_length_pieces {xs ys : List α} (size : Nat) (h : xs.length = ys.length) :
    (pieces size xs).map List.length = (pieces size ys).map List.length := by
  have hblank : xs.map (fun _ => ()) = ys.map fun _ => () := by
    rw [List.map_const', List.map_const', h]
  have hpieces := congrArg (fun zs => (pieces size zs).map List.length) hblank
  simpa only [pieces_map, List.map_map, Function.comp_def, List.length_map] using hpieces

/-- Group `i` of joined groups of one length lies `i` lengths behind the start. -/
theorem take_drop_flatten {groups : List (List α)} (h : ∀ group ∈ groups, group.length = size)
    {i : Nat} (hi : i < groups.length) :
    i * size + size ≤ groups.flatten.length ∧
      (groups.flatten.drop (i * size)).take size = groups[i] := by
  induction groups generalizing i with
  | nil => exact absurd hi (Nat.not_lt_zero i)
  | cons group rest ih =>
    have hgroup := h group List.mem_cons_self
    rw [List.flatten_cons, List.length_append, hgroup]
    cases i with
    | zero =>
      refine ⟨by omega, ?_⟩
      rw [Nat.zero_mul, List.drop_zero, ← hgroup, List.take_left]
      rfl
    | succ i =>
      obtain ⟨hle, htake⟩ :=
        ih (fun g hg => h g (List.mem_cons_of_mem group hg)) (Nat.lt_of_succ_lt_succ hi)
      have hstart : (i + 1) * size = group.length + i * size := by
        rw [Nat.succ_mul, hgroup, Nat.add_comm]
      refine ⟨by rw [Nat.succ_mul]; omega, ?_⟩
      rw [hstart, List.drop_length_add_append]
      exact htake

/-! ## Corresponding lists -/

variable {β : Type} {R : α → β → Prop}

/-- In two related lists every item of the second has its partner in the first. -/
theorem exists_mem_of_forall₂ {xs : List α} {ys : List β} (h : List.Forall₂ R xs ys) {y : β}
    (hy : y ∈ ys) : ∃ x ∈ xs, R x y := by
  obtain ⟨i, hi, rfl⟩ := List.getElem_of_mem hy
  have hi' : i < xs.length := h.length_eq ▸ hi
  exact ⟨xs[i], List.getElem_mem hi', h.get hi' hi⟩

/-- Two lists that correspond to the same third one, with an image that this determines, have the
same images. -/
theorem map_eq_map_of_forall₂ {γ δ : Type} {S : γ → β → Prop} {f : α → δ} {g : γ → δ}
    {xs : List α} {zs : List γ} {ys : List β} (hxs : List.Forall₂ R xs ys)
    (hzs : List.Forall₂ S zs ys)
    (hone : ∀ x ∈ xs, ∀ z ∈ zs, ∀ y ∈ ys, R x y → S z y → f x = g z) : xs.map f = zs.map g := by
  induction hxs generalizing zs with
  | nil =>
    cases hzs
    rfl
  | cons hx _ ih =>
    rcases hzs with _ | ⟨hz, hrest⟩
    rw [List.map_cons, List.map_cons,
      hone _ List.mem_cons_self _ List.mem_cons_self _ List.mem_cons_self hx hz,
      ih hrest fun x hx z hz y hy => hone x (List.mem_cons_of_mem _ hx) z
        (List.mem_cons_of_mem _ hz) y (List.mem_cons_of_mem _ hy)]

/-- What corresponds to joined groups are joined groups that correspond to them one by one. -/
theorem forall₂_flatten_iff {groups : List (List α)} {ys : List β} :
    List.Forall₂ R groups.flatten ys ↔
      ∃ parts, List.Forall₂ (List.Forall₂ R) groups parts ∧ parts.flatten = ys := by
  constructor
  · intro h
    induction groups generalizing ys with
    | nil =>
      cases h
      exact ⟨[], .nil, rfl⟩
    | cons group rest ih =>
      rw [List.flatten_cons] at h
      obtain ⟨parts, hparts, hys⟩ := ih (List.forall₂_drop_append _ _ _ h.flip).flip
      exact ⟨_ :: parts, .cons (List.forall₂_take_append _ _ _ h.flip).flip hparts, by
        rw [List.flatten_cons, hys, List.take_append_drop]⟩
  · rintro ⟨parts, hparts, rfl⟩
    exact List.rel_flatten hparts

end Replication
