import Replication.Proofs.Feistel

/-!
# The layout of a size

The layout computed for a size has halves of the least width for which a power of four is
sufficient, and at least one bit. Its masks have no bit in common, and together they keep exactly
the indices of the box. Main statement: up to `2 ^ 62` indices there is such a layout, whose network
leads every index into the box, and beyond there is none (`forSize_outcome`).
-/

namespace Replication.Feistel.Layout

variable {layout : Layout}

/-! ## The two masks -/

/-- The masks of the two halves share no bit. -/
theorem leftMask_and_rightMask (hl : layout.Balanced) :
    layout.leftMask &&& layout.rightMask = 0 := by
  rw [hl.leftMask_eq, hl.rightMask_eq, Nat.and_two_pow_sub_one_eq_mod, Nat.mul_mod_left]

/-- Between them the masks have all bits of the numbers below the box. -/
theorem leftMask_or_rightMask (hl : layout.Balanced) :
    layout.leftMask ||| layout.rightMask = 4 ^ layout.halfBits - 1 := by
  have hpos := Nat.two_pow_pos layout.halfBits
  have hright : 2 ^ layout.halfBits - 1 < 2 ^ layout.halfBits := Nat.sub_one_lt hpos.ne'
  have hsplit : (2 ^ layout.halfBits - 1) * 2 ^ layout.halfBits + 2 ^ layout.halfBits
      = layout.box := by
    rw [← Nat.succ_mul, Nat.succ_eq_add_one, Nat.sub_add_cancel hpos]
    rfl
  -- the right mask lies in the bits that the left one leaves free
  rw [hl.leftMask_eq, hl.rightMask_eq, ← box_eq, ← Nat.shiftLeft_eq,
    ← Nat.shiftLeft_add_eq_or_of_lt hright, Nat.shiftLeft_eq]
  omega

/-- An index is kept as it is by masks that have all bits below a power of four exactly if it is
below that power. -/
theorem and_four_pow_sub_one_eq_iff {bits index : Nat} :
    index &&& (4 ^ bits - 1) = index ↔ index < 4 ^ bits := by
  have hpow : 4 ^ bits = 2 ^ (2 * bits) := Nat.pow_mul 2 2 bits |>.symm
  rw [hpow, Nat.and_two_pow_sub_one_eq_mod, Nat.mod_eq_iff_lt (Nat.two_pow_pos _).ne']

/-! ## The layout of a size -/

/-- Up to `2 ^ 62` indices have a layout. Its halves have the least width of at least one bit for
which the power of four is sufficient, its masks share no bit and together keep exactly the
indices below that power, and whatever the keys and the index, the network and the network run
backwards lead below it. For more indices the next power of four is no word. -/
theorem forSize_outcome (size : Nat) :
    (size ≤ 2 ^ 62 → ∃ layout, forSize size = .ok layout ∧
      IsLeast {bits | 1 ≤ bits ∧ size ≤ 4 ^ bits} layout.halfBits ∧
      layout.rightMask = 2 ^ layout.halfBits - 1 ∧
      layout.leftMask = layout.rightMask * 2 ^ layout.halfBits ∧
      layout.leftMask &&& layout.rightMask = 0 ∧
      layout.leftMask ||| layout.rightMask = 4 ^ layout.halfBits - 1 ∧
      (∀ index, index &&& (layout.leftMask ||| layout.rightMask) = index ↔
        index < 4 ^ layout.halfBits) ∧
      ∀ (keys : List UInt64) (index : Nat), encode layout keys index < 4 ^ layout.halfBits ∧
        decode layout keys index < 4 ^ layout.halfBits) ∧
    (2 ^ 62 < size → forSize size = abort .overflow) := by
  refine ⟨fun hsize => ?_, forSize_of_lt⟩
  obtain ⟨layout, hlayout, hl, hleast⟩ := exists_forSize_isLeast hsize
  have hleft : layout.leftMask = layout.rightMask * 2 ^ layout.halfBits := by
    rw [hl.leftMask_eq, hl.rightMask_eq]
  have hunion := leftMask_or_rightMask hl
  refine ⟨layout, hlayout, hleast, hl.rightMask_eq, hleft, leftMask_and_rightMask hl, hunion,
    ?_, ?_⟩
  · intro index
    rw [hunion]
    exact and_four_pow_sub_one_eq_iff
  · intro keys index
    rw [← box_eq]
    exact ⟨encode_lt hl keys index, decode_lt hl keys index⟩

/-- The largest size that has a layout fills its box. -/
theorem forSize_outcome_largest : 2 ^ 62 ≤ 2 ^ 62 ∧ 2 ^ 62 < 2 ^ 62 + 1 ∧
    forSize (2 ^ 62 + 1) = abort .overflow ∧ ∃ layout, forSize (2 ^ 62) = .ok layout ∧
      layout.halfBits = 31 ∧ layout.leftMask ||| layout.rightMask = 2 ^ 62 - 1 ∧
      ∀ keys index, encode layout keys index < 2 ^ 62 := by
  refine ⟨Nat.le_refl _, Nat.lt_succ_self _, (forSize_outcome _).2 (Nat.lt_succ_self _), ?_⟩
  obtain ⟨layout, hlayout, -, -, -, -, hunion, -, hnetwork⟩ :=
    (forSize_outcome (2 ^ 62)).1 (Nat.le_refl _)
  have hbits : layout.halfBits = 31 := by
    have hvalue : (forSize (2 ^ 62)).map Layout.halfBits = .ok 31 := by decide
    rw [hlayout] at hvalue
    exact Except.ok.inj hvalue
  rw [hbits] at hunion hnetwork
  exact ⟨layout, hlayout, hbits, hunion, fun keys index => (hnetwork keys index).1⟩

/-- One index more than a power of four needs one bit more in each half. -/
example : (forSize 16).map Layout.halfBits = .ok 2 ∧ (forSize 17).map Layout.halfBits = .ok 3 := by
  decide

end Replication.Feistel.Layout
