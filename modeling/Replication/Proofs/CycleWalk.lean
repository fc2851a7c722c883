import Mathlib.Data.Finset.Card
import Mathlib.Data.Nat.Find
import Mathlib.Logic.Function.Iterate
import Replication.Feistel

/-!
# Walks that come back

A map of a box of numbers into itself, with another map that undoes it there, meets every number
of the box again. So a walk that starts below a size comes back below the size, and the number of
steps it may take does not matter once it is the size of the box. The walk with the other map
retraces it: the two pass the same numbers, of which only the ends are below the size.
-/

namespace Replication.Feistel

variable {f g : Nat → Nat} {box size i j k : Nat}

/-! ## Iterates -/

/-- `f` maps the numbers below `box` to numbers below `box`, and `g` undoes it there. -/
structure Undone (f g : Nat → Nat) (box : Nat) : Prop where
  lt : ∀ i, i < box → f i < box
  undo : ∀ i, i < box → g (f i) = i

namespace Undone

/-- A walk under a permutation of the box stays in the box. -/
theorem iterate_lt (h : Undone f g box) (hi : i < box) (k : Nat) : f^[k] i < box := by
  induction k with
  | zero => exact hi
  | succ k ih =>
    rw [Function.iterate_succ_apply']
    exact h.lt _ ih

/-- Going back some steps of a longer walk leaves the other steps. -/
theorem iterate_iterate (h : Undone f g box) (hi : i < box) (m k : Nat) :
    g^[m] (f^[m + k] i) = f^[k] i := by
  induction m with
  | zero => rw [Nat.zero_add, Function.iterate_zero_apply]
  | succ m ih =>
    rw [Function.iterate_succ_apply, Nat.succ_add, Function.iterate_succ_apply',
      h.undo _ (h.iterate_lt hi (m + k)), ih]

/-- Going back from two equal iterates one arrives at the start. -/
theorem iterate_eq_self_of_eq (h : Undone f g box) (hi : i < box) {a b : Nat}
    (heq : f^[a] i = f^[a + b] i) : f^[b] i = i := by
  rw [← h.iterate_iterate hi a b, ← heq]
  exact h.iterate_iterate hi a 0

/-- Every number is met again, after at most as many applications as the box has numbers. -/
theorem exists_iterate_eq_self (h : Undone f g box) (hi : i < box) :
    ∃ k, 0 < k ∧ k ≤ box ∧ f^[k] i = i := by
  -- one more iterate than there are numbers, so two of them are the same
  have hcard : (Finset.range box).card < (Finset.range (box + 1)).card := by simp
  obtain ⟨a, ha, b, hb, hne, heq⟩ := Finset.exists_ne_map_eq_of_card_lt_of_maps_to hcard
    fun k _ => Finset.mem_coe.mpr (Finset.mem_range.mpr (h.iterate_lt hi k))
  rw [Finset.mem_range] at ha hb
  rcases Nat.lt_or_gt_of_ne hne with hlt | hlt
  · refine ⟨b - a, by omega, by omega, h.iterate_eq_self_of_eq hi (a := a) ?_⟩
    rw [Nat.add_sub_cancel' (by omega)]
    exact heq
  · refine ⟨a - b, by omega, by omega, h.iterate_eq_self_of_eq hi (a := b) ?_⟩
    rw [Nat.add_sub_cancel' (by omega)]
    exact heq.symm

end Undone

/-! ## The first number below the size -/

/-- Applied again and again from `i` on, at least once, `f` first gives a number below `size`
after `k` applications, and that number is `j`. -/
structure FirstBelow (f : Nat → Nat) (size i k j : Nat) : Prop where
  pos : 0 < k
  iterate_eq : f^[k] i = j
  lt : j < size
  before : ∀ m, 0 < m → m < k → size ≤ f^[m] i

/-- A walk that starts below the size returns below it within the size of the box. -/
theorem Undone.exists_firstBelow (h : Undone f g box) (hsize : size ≤ box) (hi : i < size) :
    ∃ k j, k ≤ box ∧ FirstBelow f size i k j := by
  obtain ⟨k, hpos, hle, hself⟩ := h.exists_iterate_eq_self (show i < box by omega)
  have hreturns : ∃ k, 0 < k ∧ f^[k] i < size := ⟨k, hpos, by omega⟩
  obtain ⟨hfirst, hlt⟩ := Nat.find_spec hreturns
  have hmin : Nat.find hreturns ≤ k := Nat.find_min' hreturns ⟨hpos, by omega⟩
  refine ⟨Nat.find hreturns, _, by omega, hfirst, rfl, hlt, ?_⟩
  intro m hm hless
  have := Nat.find_min hreturns hless
  omega

/-- The way back passes the same numbers in the opposite order. -/
theorem FirstBelow.symm (h : Undone f g box) (hfirst : FirstBelow f size i k j)
    (hsize : size ≤ box) (hi : i < size) : FirstBelow g size j k i := by
  have hback : ∀ m ≤ k, g^[m] j = f^[k - m] i := by
    intro m hm
    rw [← h.iterate_iterate (show i < box by omega) m (k - m), Nat.add_sub_cancel' hm,
      hfirst.iterate_eq]
  refine ⟨hfirst.pos, ?_, hi, ?_⟩
  · rw [hback k (Nat.le_refl k), Nat.sub_self, Function.iterate_zero_apply]
  · intro m hm hlt
    rw [hback m (by omega)]
    exact hfirst.before (k - m) (by omega) (by omega)

/-! ## Walks -/

/-- With enough steps left a walk goes on to the first iterate below the size, and no further. -/
theorem walk_eq_iterate {steps index : Nat} (hsteps : k ≤ steps) (hlt : f^[k] index < size)
    (hbefore : ∀ m < k, size ≤ f^[m] index) : walk f size steps index = f^[k] index := by
  induction steps generalizing k index with
  | zero =>
    rw [Nat.le_zero.mp hsteps]
    rfl
  | succ steps ih =>
    rcases k with _ | k
    · rw [Function.iterate_zero_apply] at hlt ⊢
      rw [walk, if_pos hlt]
    · have hstart : size ≤ index := hbefore 0 (Nat.succ_pos k)
      rw [Function.iterate_succ_apply] at hlt ⊢
      rw [walk, if_neg (by omega)]
      refine ih (by omega) hlt ?_
      intro m hm
      exact hbefore (m + 1) (by omega)

/-- The first application is made before the walk, so that the walk takes one step less. -/
theorem FirstBelow.walk_eq {steps : Nat} (h : FirstBelow f size i k j) (hsteps : k ≤ steps) :
    walk f size steps (f i) = j := by
  have hpos := h.pos
  have hk : f^[k - 1] (f i) = j := by
    rw [← Function.iterate_succ_apply, Nat.succ_eq_add_one, Nat.sub_add_cancel hpos, h.iterate_eq]
  rw [← hk]
  refine walk_eq_iterate (by omega) (by rw [hk]; exact h.lt) ?_
  intro m hm
  exact h.before (m + 1) (Nat.succ_pos m) (by omega)

/-- A walk from below the size ends, at the first number below the size. -/
theorem Undone.firstBelow_walk (h : Undone f g box) (hsize : size ≤ box) (hi : i < size)
    {steps : Nat} (hsteps : box ≤ steps) :
    ∃ k ≤ box, FirstBelow f size i k (walk f size steps (f i)) := by
  obtain ⟨k, j, hk, hfirst⟩ := h.exists_firstBelow hsize hi
  refine ⟨k, hk, ?_⟩
  rw [hfirst.walk_eq (Nat.le_trans hk hsteps)]
  exact hfirst

/-- A walk is undone by the walk with the map that undoes a step. -/
theorem Undone.walk_walk (h : Undone f g box) (hsize : size ≤ box) (hi : i < size)
    {steps : Nat} (hsteps : box ≤ steps) :
    walk g size steps (g (walk f size steps (f i))) = i := by
  obtain ⟨k, hk, hfirst⟩ := h.firstBelow_walk hsize hi hsteps
  exact (hfirst.symm h hsize hi).walk_eq (Nat.le_trans hk hsteps)

end Replication.Feistel
