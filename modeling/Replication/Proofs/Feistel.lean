import Mathlib.Data.Set.Function
import Mathlib.Order.Bounds.Defs
import Replication.Feistel
import Replication.Proofs.CycleWalk
import Replication.Proofs.Outcome

/-!
# The keyed permutation of an interval

The layout computed for a size splits the numbers below a power of four, the *box*, into two equal
halves. On the box the network and the network run backwards undo each other, so the walk with
either ends below the size. Main statement: for every size that has a layout the walks end and are
inverse to each other, so the indices below the size are permuted.
-/

namespace Replication.Feistel

/-! ## Layouts -/

/-- The number of indices that a layout tells apart. -/
def Layout.box (layout : Layout) : Nat := 2 ^ layout.halfBits * 2 ^ layout.halfBits

/-- The layout splits words below its box into two halves of the same width. -/
structure Layout.Balanced (layout : Layout) : Prop where
  leftMask_eq : layout.leftMask = (2 ^ layout.halfBits - 1) * 2 ^ layout.halfBits
  rightMask_eq : layout.rightMask = 2 ^ layout.halfBits - 1
  box_lt : layout.box < Word.limit

theorem Layout.box_eq (layout : Layout) : layout.box = 4 ^ layout.halfBits :=
  (Nat.mul_pow 2 2 layout.halfBits).symm

/-- The largest size that two halves of thirty-one bits can tell apart. -/
def Layout.sizeLimit : Nat := 2 ^ 62

theorem Layout.sizeLimit_eq : Layout.sizeLimit = 4 ^ 31 := by decide

/-- The powers of four that are words end with the thirty-first. -/
theorem four_pow_lt_limit {bits : Nat} (h : bits ≤ 31) : 4 ^ bits < Word.limit :=
  (Nat.pow_le_pow_right (by decide) h).trans_lt (by decide)

/-- The powers of four up to `4 ^ 31` fit a word. -/
theorem mul_four_of_lt {bits : Nat} (h : bits < 31) :
    Word.mul (4 ^ bits) 4 = .ok (4 ^ (bits + 1)) :=
  Word.mul_eq_ok_iff.mpr ⟨four_pow_lt_limit h, rfl⟩

/-- Within the limit the search ends, with the least number of bits from its start on whose power
of four is sufficient. -/
theorem Layout.exists_leastHalfBits (steps : Nat) {size halfBits : Nat}
    (hsize : size ≤ Layout.sizeLimit) (hbits : halfBits ≤ 31) (hsteps : 32 ≤ steps + halfBits) :
    ∃ result ≤ 31, Layout.leastHalfBits size steps (4 ^ halfBits) halfBits = .ok result ∧
      IsLeast {bits | halfBits ≤ bits ∧ size ≤ 4 ^ bits} result := by
  rw [Layout.sizeLimit_eq] at hsize
  induction steps generalizing halfBits with
  | zero => omega
  | succ steps ih =>
    rw [Layout.leastHalfBits]
    by_cases hlt : 4 ^ halfBits < size
    · have hnext : halfBits < 31 := by
        rw [← Nat.pow_lt_pow_iff_right (show 1 < 4 by decide)]
        omega
      obtain ⟨result, hle, hresult, ⟨hmore, hsufficient⟩, hleast⟩ := ih hnext (by omega)
      rw [if_pos hlt, mul_four_of_lt hnext, Result.ok_bind]
      refine ⟨result, hle, hresult, ⟨Nat.le_of_succ_le hmore, hsufficient⟩, ?_⟩
      rintro bits ⟨hge, hbits⟩
      -- the power tried here is too small
      have hne : bits ≠ halfBits := by
        rintro rfl
        omega
      exact hleast ⟨by omega, hbits⟩
    · rw [if_neg hlt]
      exact ⟨halfBits, hbits, rfl, ⟨Nat.le_refl _, by omega⟩, fun _ h => h.1⟩

/-- Beyond the limit every power of four that is a word is too small. -/
theorem Layout.leastHalfBits_of_lt (steps : Nat) {size halfBits : Nat}
    (hsize : Layout.sizeLimit < size) (hbits : halfBits ≤ 31) :
    Layout.leastHalfBits size steps (4 ^ halfBits) halfBits = abort .overflow := by
  induction steps generalizing halfBits with
  | zero => rfl
  | succ steps ih =>
    have hpower : 4 ^ halfBits ≤ Layout.sizeLimit := by
      rw [Layout.sizeLimit_eq]
      exact Nat.pow_le_pow_right (by decide) hbits
    rw [Layout.leastHalfBits, if_pos (by omega)]
    rcases Nat.lt_or_eq_of_le hbits with hnext | rfl
    · rw [mul_four_of_lt hnext, Result.ok_bind]
      exact ih hnext
    · rw [Word.mul_of_le (by decide), Result.abort_bind]

/-- Within the limit there is a layout, and its halves have the least sufficient width. -/
theorem Layout.exists_forSize_isLeast {size : Nat} (h : size ≤ Layout.sizeLimit) :
    ∃ layout, Layout.forSize size = .ok layout ∧ layout.Balanced ∧
      IsLeast {bits | 1 ≤ bits ∧ size ≤ 4 ^ bits} layout.halfBits := by
  obtain ⟨halfBits, hle, hresult, hleast⟩ := Layout.exists_leastHalfBits 64 h
    (show 1 ≤ 31 by decide) (by omega)
  have hbits : halfBits < 64 := by omega
  have hlayout : Layout.forSize size
      = .ok ⟨(2 ^ halfBits - 1) * 2 ^ halfBits, 2 ^ halfBits - 1, halfBits, hbits⟩ := by
    show Layout.leastHalfBits size 64 (4 ^ 1) 1 >>= _ = _
    rw [hresult, Result.ok_bind, Layout.ofMasks, dif_pos hbits]
  refine ⟨_, hlayout, ⟨rfl, rfl, ?_⟩, hleast⟩
  rw [Layout.box_eq]
  exact four_pow_lt_limit hle

/-- Beyond `4 ^ 31` the search for a layout overflows. -/
theorem Layout.forSize_of_lt {size : Nat} (h : Layout.sizeLimit < size) :
    Layout.forSize size = abort .overflow := by
  have hoverflow := Layout.leastHalfBits_of_lt 64 h (show 1 ≤ 31 by decide)
  show Layout.leastHalfBits size 64 (4 ^ 1) 1 >>= _ = _
  rw [hoverflow, Result.abort_bind]

/-- The layout that is found is balanced and its box covers the size. -/
theorem Layout.balanced_of_forSize {size : Nat} {layout : Layout}
    (h : Layout.forSize size = .ok layout) : layout.Balanced ∧ size ≤ layout.box := by
  by_cases hsize : size ≤ Layout.sizeLimit
  · obtain ⟨layout', hlayout, hbalanced, hleast⟩ := Layout.exists_forSize_isLeast hsize
    rw [h] at hlayout
    cases hlayout
    rw [Layout.box_eq]
    exact ⟨hbalanced, hleast.1.2⟩
  · rw [Layout.forSize_of_lt (by omega)] at h
    cases h

/-- Every size up to `4 ^ 31` has a layout. -/
theorem Layout.exists_forSize {size : Nat} (h : size ≤ Layout.sizeLimit) :
    ∃ layout, Layout.forSize size = .ok layout := by
  obtain ⟨layout, hlayout, -⟩ := Layout.exists_forSize_isLeast h
  exact ⟨layout, hlayout⟩

/-! ## Halves of an index -/

section Halves

variable {layout : Layout}

/-- Both halves have the width of the layout. -/
def Fit (layout : Layout) (halves : Nat × Nat) : Prop :=
  halves.1 < 2 ^ layout.halfBits ∧ halves.2 < 2 ^ layout.halfBits

/-- Bits above both halves are lost. -/
theorem split_eq_mod (hl : layout.Balanced) (index : Nat) :
    split layout index
      = (index / 2 ^ layout.halfBits % 2 ^ layout.halfBits, index % 2 ^ layout.halfBits) := by
  have hpos := Nat.two_pow_pos layout.halfBits
  -- the left mask is the right one moved up, and the index is moved down after masking
  unfold split
  rw [hl.leftMask_eq, hl.rightMask_eq, Nat.shiftRight_and_distrib,
    Nat.shiftRight_eq_div_pow (_ * _), Nat.mul_div_cancel _ hpos, Nat.and_two_pow_sub_one_eq_mod,
    Nat.and_two_pow_sub_one_eq_mod, Nat.shiftRight_eq_div_pow]

/-- The two halves of an index fit the width of the layout, for any index. -/
theorem fit_split (hl : layout.Balanced) (index : Nat) : Fit layout (split layout index) := by
  have hpos := Nat.two_pow_pos layout.halfBits
  rw [split_eq_mod hl index]
  exact ⟨Nat.mod_lt _ hpos, Nat.mod_lt _ hpos⟩

/-- Within the box the halves are the quotient and the remainder. -/
theorem split_eq (hl : layout.Balanced) {index : Nat} (hindex : index < layout.box) :
    split layout index
      = (index / 2 ^ layout.halfBits, index % 2 ^ layout.halfBits) := by
  have hhigh : index / 2 ^ layout.halfBits < 2 ^ layout.halfBits :=
    (Nat.div_lt_iff_lt_mul (Nat.two_pow_pos _)).mpr hindex
  rw [split_eq_mod hl index, Nat.mod_eq_of_lt hhigh]

/-- Halves that fit are joined as the digits of a number. -/
theorem join_eq (hl : layout.Balanced) {halves : Nat × Nat} (h : Fit layout halves) :
    join layout halves = halves.1 * 2 ^ layout.halfBits + halves.2 := by
  have hle : halves.1 * 2 ^ layout.halfBits ≤ layout.box :=
    Nat.mul_le_mul_right _ (Nat.le_of_lt h.1)
  have hlt := hl.box_lt
  -- the moved half is still a word, and its low bits are free for the other half
  unfold join
  rw [Nat.shiftLeft_eq, Nat.mod_eq_of_lt (by omega), ← Nat.shiftLeft_eq,
    ← Nat.shiftLeft_add_eq_or_of_lt h.2]

/-- Halves that fit join to an index of the box. -/
theorem join_lt (hl : layout.Balanced) {halves : Nat × Nat} (h : Fit layout halves) :
    join layout halves < layout.box := by
  have hle : (halves.1 + 1) * 2 ^ layout.halfBits ≤ layout.box := Nat.mul_le_mul_right _ h.1
  have hlow := h.2
  rw [Nat.succ_mul] at hle
  rw [join_eq hl h]
  omega

theorem split_join (hl : layout.Balanced) {halves : Nat × Nat} (h : Fit layout halves) :
    split layout (join layout halves) = halves := by
  have hpos := Nat.two_pow_pos layout.halfBits
  rw [split_eq hl (join_lt hl h), join_eq hl h]
  have hdiv : (halves.1 * 2 ^ layout.halfBits + halves.2) / 2 ^ layout.halfBits = halves.1 := by
    rw [Nat.add_comm, Nat.add_mul_div_right _ _ hpos, Nat.div_eq_of_lt h.2, Nat.zero_add]
  have hmod : (halves.1 * 2 ^ layout.halfBits + halves.2) % 2 ^ layout.halfBits = halves.2 := by
    rw [Nat.add_comm, Nat.add_mul_mod_self_right, Nat.mod_eq_of_lt h.2]
  rw [hdiv, hmod]

theorem join_split (hl : layout.Balanced) {index : Nat} (hindex : index < layout.box) :
    join layout (split layout index) = index := by
  rw [join_eq hl (fit_split hl index), split_eq hl hindex, Nat.mul_comm]
  exact Nat.div_add_mod index _

end Halves

/-! ## Rounds -/

section Rounds

variable {layout : Layout}

/-- The round function stays within one half, for any key and any half. -/
theorem roundFunction_lt (hl : layout.Balanced) (key : UInt64) (half : Nat) :
    roundFunction layout key half < 2 ^ layout.halfBits := by
  have hpos := Nat.two_pow_pos layout.halfBits
  have hle : roundFunction layout key half ≤ layout.rightMask := Nat.and_le_right
  rw [hl.rightMask_eq] at hle
  omega

/-- A round keeps the halves within their width. -/
theorem fit_step (hl : layout.Balanced) {halves : Nat × Nat} (h : Fit layout halves)
    (key : UInt64) : Fit layout (step layout halves key) :=
  ⟨h.2, Nat.xor_lt_two_pow h.1 (roundFunction_lt hl key halves.2)⟩

theorem fit_unstep (hl : layout.Balanced) {halves : Nat × Nat} (h : Fit layout halves)
    (key : UInt64) : Fit layout (unstep layout halves key) :=
  ⟨Nat.xor_lt_two_pow h.2 (roundFunction_lt hl key halves.1), h.1⟩

/-- A round is undone by its inverse, whatever the round function. -/
theorem unstep_step (halves : Nat × Nat) (key : UInt64) :
    unstep layout (step layout halves key) key = halves := by
  show (halves.1 ^^^ roundFunction layout key halves.2 ^^^ roundFunction layout key halves.2,
    halves.2) = halves
  rw [Nat.xor_assoc, Nat.xor_self, Nat.xor_zero]

/-- A round undoes the same round taken back. -/
theorem step_unstep (halves : Nat × Nat) (key : UInt64) :
    step layout (unstep layout halves key) key = halves := by
  show (halves.1,
    halves.2 ^^^ roundFunction layout key halves.1 ^^^ roundFunction layout key halves.1) = halves
  rw [Nat.xor_assoc, Nat.xor_self, Nat.xor_zero]

/-- All rounds together keep the halves within their width. -/
theorem fit_rounds (hl : layout.Balanced) (keys : List UInt64) {halves : Nat × Nat}
    (h : Fit layout halves) : Fit layout (keys.foldl (step layout) halves) := by
  induction keys generalizing halves with
  | nil => exact h
  | cons key keys ih => exact ih (fit_step hl h key)

theorem fit_unrounds (hl : layout.Balanced) (keys : List UInt64) {halves : Nat × Nat}
    (h : Fit layout halves) : Fit layout (keys.foldl (unstep layout) halves) := by
  induction keys generalizing halves with
  | nil => exact h
  | cons key keys ih => exact ih (fit_unstep hl h key)

/-- Taking the rounds back in the reverse order undoes them. -/
theorem unrounds_rounds (keys : List UInt64) (halves : Nat × Nat) :
    keys.reverse.foldl (unstep layout) (keys.foldl (step layout) halves) = halves := by
  induction keys generalizing halves with
  | nil => rfl
  | cons key keys ih =>
    -- the first round is the last one to be undone
    rw [List.foldl_cons, List.reverse_cons, List.foldl_append, ih]
    exact unstep_step halves key

theorem rounds_unrounds (keys : List UInt64) (halves : Nat × Nat) :
    keys.foldl (step layout) (keys.reverse.foldl (unstep layout) halves) = halves := by
  induction keys generalizing halves with
  | nil => rfl
  | cons key keys ih =>
    rw [List.reverse_cons, List.foldl_append]
    show keys.foldl (step layout) (step layout (unstep layout
      (keys.reverse.foldl (unstep layout) halves) key) key) = halves
    rw [step_unstep, ih]

/-- Whatever the index, the network leads into its box. -/
theorem encode_lt (hl : layout.Balanced) (keys : List UInt64) (index : Nat) :
    encode layout keys index < layout.box :=
  join_lt hl (fit_rounds hl _ (fit_split hl index))

theorem decode_lt (hl : layout.Balanced) (keys : List UInt64) (index : Nat) :
    decode layout keys index < layout.box :=
  join_lt hl (fit_unrounds hl _ (fit_split hl index))

/-- On its box the network is undone by the network run backwards. -/
theorem undone_encode (hl : layout.Balanced) (keys : List UInt64) :
    Undone (encode layout keys) (decode layout keys) layout.box := by
  refine ⟨?_, ?_⟩ <;> intro index hindex
  · exact encode_lt hl keys index
  · unfold decode encode
    rw [split_join hl (fit_rounds hl _ (fit_split hl index)), unrounds_rounds,
      join_split hl hindex]

/-- On its box the network run backwards is undone by the network. -/
theorem undone_decode (hl : layout.Balanced) (keys : List UInt64) :
    Undone (decode layout keys) (encode layout keys) layout.box := by
  refine ⟨?_, ?_⟩ <;> intro index hindex
  · exact decode_lt hl keys index
  · unfold decode encode
    rw [split_join hl (fit_unrounds hl _ (fit_split hl index)), rounds_unrounds,
      join_split hl hindex]

end Rounds

/-! ## The permutation -/

section Permutation

variable {layout : Layout} {size index : Nat}

/-- The place of an index is where the walk with the network first comes below the size. -/
theorem firstBelow_permute (hl : layout.Balanced) (keys : List UInt64) (hsize : size ≤ layout.box)
    (hindex : index < size) :
    ∃ k, FirstBelow (encode layout keys) size index k (permute layout keys size index) := by
  obtain ⟨k, -, hfirst⟩ :=
    (undone_encode hl keys).firstBelow_walk hsize hindex (Nat.le_of_lt hl.box_lt)
  exact ⟨k, hfirst⟩

/-- The index with a given place is where the walk with the network run backwards first comes
below the size. -/
theorem firstBelow_unpermute (hl : layout.Balanced) (keys : List UInt64)
    (hsize : size ≤ layout.box) (hindex : index < size) :
    ∃ k, FirstBelow (decode layout keys) size index k (unpermute layout keys size index) := by
  obtain ⟨k, -, hfirst⟩ :=
    (undone_decode hl keys).firstBelow_walk hsize hindex (Nat.le_of_lt hl.box_lt)
  exact ⟨k, hfirst⟩

/-- An index below the size keeps a place below the size. -/
theorem permute_lt (hl : layout.Balanced) (keys : List UInt64) (hsize : size ≤ layout.box)
    (hindex : index < size) : permute layout keys size index < size := by
  obtain ⟨k, hfirst⟩ := firstBelow_permute hl keys hsize hindex
  exact hfirst.lt

theorem unpermute_lt (hl : layout.Balanced) (keys : List UInt64) (hsize : size ≤ layout.box)
    (hindex : index < size) : unpermute layout keys size index < size := by
  obtain ⟨k, hfirst⟩ := firstBelow_unpermute hl keys hsize hindex
  exact hfirst.lt

/-- The inverse permutation undoes the permutation below the size. -/
theorem unpermute_permute (hl : layout.Balanced) (keys : List UInt64) (hsize : size ≤ layout.box)
    (hindex : index < size) :
    unpermute layout keys size (permute layout keys size index) = index :=
  (undone_encode hl keys).walk_walk hsize hindex (Nat.le_of_lt hl.box_lt)

theorem permute_unpermute (hl : layout.Balanced) (keys : List UInt64) (hsize : size ≤ layout.box)
    (hindex : index < size) :
    permute layout keys size (unpermute layout keys size index) = index :=
  (undone_decode hl keys).walk_walk hsize hindex (Nat.le_of_lt hl.box_lt)

end Permutation

/-- Up to `2 ^ 62` indices have a layout, and whatever the keys, the walks with the network and
with the network run backwards end below the size and undo each other: the indices are
permuted. -/
theorem bijOn_permute {size : Nat} (hsize : size ≤ 2 ^ 62) (keys : List UInt64) :
    ∃ layout, Layout.forSize size = .ok layout ∧
      (∀ index < size, ∃ k,
        FirstBelow (encode layout keys) size index k (permute layout keys size index)) ∧
      (∀ index < size, ∃ k,
        FirstBelow (decode layout keys) size index k (unpermute layout keys size index)) ∧
      Set.InvOn (unpermute layout keys size) (permute layout keys size)
        (Set.Iio size) (Set.Iio size) ∧
      Set.BijOn (permute layout keys size) (Set.Iio size) (Set.Iio size) := by
  obtain ⟨layout, hlayout⟩ := Layout.exists_forSize hsize
  obtain ⟨hl, hbox⟩ := Layout.balanced_of_forSize hlayout
  have hinv : Set.InvOn (unpermute layout keys size) (permute layout keys size)
      (Set.Iio size) (Set.Iio size) :=
    ⟨fun _ hindex => unpermute_permute hl keys hbox hindex,
      fun _ hindex => permute_unpermute hl keys hbox hindex⟩
  refine ⟨layout, hlayout, fun _ hindex => firstBelow_permute hl keys hbox hindex,
    fun _ hindex => firstBelow_unpermute hl keys hbox hindex, hinv, ?_⟩
  exact hinv.bijOn (fun _ hindex => permute_lt hl keys hbox hindex)
    fun _ hindex => unpermute_lt hl keys hbox hindex

/-- Five is no power of four: the box of its layout has sixteen indices, so that walks leave the
interval and come back. -/
theorem bijOn_permute_five : 5 ≤ 2 ^ 62 ∧ ∃ layout, Layout.forSize 5 = .ok layout ∧
    layout.box = 16 ∧ Set.InvOn (unpermute layout [1, 2, 3, 4] 5) (permute layout [1, 2, 3, 4] 5)
      (Set.Iio 5) (Set.Iio 5) ∧
    Set.BijOn (permute layout [1, 2, 3, 4] 5) (Set.Iio 5) (Set.Iio 5) := by
  obtain ⟨layout, hlayout, -, -, hinv, hbij⟩ :=
    bijOn_permute (show 5 ≤ 2 ^ 62 by decide) [1, 2, 3, 4]
  refine ⟨by decide, layout, hlayout, ?_, hinv, hbij⟩
  have hfive : Layout.forSize 5 = .ok ⟨12, 3, 2, by decide⟩ := by rfl
  rw [hfive] at hlayout
  cases hlayout
  rfl

end Replication.Feistel
