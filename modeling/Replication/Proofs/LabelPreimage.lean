import Replication.Proofs.Label

/-!
# What a label commits to

The preimage of a label is a header of fixed width, the replica identifier, the layer, the node and
zero bytes, followed by thirty-seven labels of parents, or by nothing for node zero. So equal
preimages have equal headers and equal absorbed parents (`preimage_eq_iff`), and as every parent is
absorbed before the first one comes again, parent lists of one length are told apart up to
thirty-seven parents.
-/

namespace Replication

/-! ## Fields and cycles -/

namespace Bytes

/-- Numbers that fit a width are told apart by their digits. -/
theorem natBE_inj {width a b : Nat} (ha : a < 256 ^ width) (hb : b < 256 ^ width)
    (h : natBE width a = natBE width b) : a = b := by
  have hdigits : natLE width a = natLE width b := List.reverse_injective h
  have hvalue := congrArg toNatLE hdigits
  rwa [toNatLE_natLE, toNatLE_natLE, Nat.mod_eq_of_lt ha, Nat.mod_eq_of_lt hb] at hvalue

end Bytes

section Cycle

variable {α : Type} {count : Nat}

/-- Repeating a list starts with what is left of the current pass. -/
theorem take_cycleFrom (all : List α) {rest : List α} (h : rest.length ≤ count) :
    (cycleFrom all count rest).take rest.length = rest := by
  induction rest generalizing count with
  | nil => rfl
  | cons x rest ih =>
    match count with
    | count + 1 =>
      rw [List.length_cons] at h ⊢
      rw [cycleFrom, List.take_succ_cons, ih (by omega)]

/-- A list is read once in full before it is read again. -/
theorem take_takeCyclic {xs : List α} (h : xs.length ≤ count) :
    (takeCyclic count xs).take xs.length = xs :=
  take_cycleFrom xs h

/-- Lists of one length that are read in full are told apart by what is read. -/
theorem takeCyclic_inj {xs ys : List α} (hlen : xs.length = ys.length) (h : xs.length ≤ count) :
    takeCyclic count xs = takeCyclic count ys ↔ xs = ys := by
  constructor
  · intro heq
    rw [← take_takeCyclic h, heq, hlen, take_takeCyclic (hlen ▸ h)]
  · intro heq
    rw [heq]

end Cycle

namespace Label

variable {replicaId replicaId' : Element} {layer layer' : UInt32} {node node' : UInt64}
  {parents parents' : List Element}

/-! ## The header -/

/-- The bytes of a preimage in front of the parents. -/
def header (replicaId : Element) (layer : UInt32) (node : UInt64) : Bytes :=
  replicaId.bytes ++ Bytes.natBE 4 layer.toNat ++ Bytes.natBE 8 node.toNat
    ++ List.replicate paddingSize 0

/-- The labels that go into a preimage behind the header. -/
def absorbed (node : UInt64) (parents : List Element) : List Element :=
  if node = 0 then [] else takeCyclic hashedParents parents

theorem length_header : (header replicaId layer node).length = 64 := by
  unfold header paddingSize
  simp only [List.length_append, Bytes.length_natBE, List.length_replicate,
    replicaId.length_bytes]

/-- The first two blocks of a preimage determine the replica, the layer and the node. -/
theorem header_inj : header replicaId layer node = header replicaId' layer' node' ↔
    replicaId = replicaId' ∧ layer = layer' ∧ node = node' := by
  constructor
  · intro h
    -- the fields have the same widths on both sides, so they are split off from the back
    have hlen : replicaId.bytes.length = replicaId'.bytes.length := by
      rw [replicaId.length_bytes, replicaId'.length_bytes]
    have h := (List.append_inj_left' h rfl)
    obtain ⟨h, hnode⟩ := List.append_inj' h (by simp only [Bytes.length_natBE])
    obtain ⟨hid, hlayer⟩ := List.append_inj h hlen
    have hlayer := Bytes.natBE_inj layer.toNat_lt layer'.toNat_lt hlayer
    have hnode := Bytes.natBE_inj node.toNat_lt node'.toNat_lt hnode
    exact ⟨Element.ext_bytes hid, UInt32.toNat_inj.mp hlayer, UInt64.toNat_inj.mp hnode⟩
  · intro h
    obtain ⟨rfl, rfl, rfl⟩ := h
    rfl

/-- A preimage is its header followed by the labels that are absorbed. -/
theorem preimage_eq : preimage replicaId layer node parents
    = header replicaId layer node ++ HashFamily.concatBytes (absorbed node parents) := by
  unfold preimage absorbed
  split
  · rfl
  · rfl

/-- Preimages are equal exactly if their headers are and the same labels were absorbed. -/
theorem preimage_eq_iff :
    preimage replicaId layer node parents = preimage replicaId' layer' node' parents' ↔
      replicaId = replicaId' ∧ layer = layer' ∧ node = node' ∧
        absorbed node parents = absorbed node' parents' := by
  have hlen : (header replicaId layer node).length = (header replicaId' layer' node').length := by
    rw [length_header, length_header]
  rw [preimage_eq, preimage_eq]
  constructor
  · intro h
    obtain ⟨hheader, hparents⟩ := List.append_inj h hlen
    obtain ⟨hid, hlayer, hnode⟩ := header_inj.mp hheader
    exact ⟨hid, hlayer, hnode, HashFamily.concatBytes_injective hparents⟩
  · intro h
    obtain ⟨hid, hlayer, hnode, hparents⟩ := h
    rw [header_inj.mpr ⟨hid, hlayer, hnode⟩, hparents]

/-! ## Binding -/

/-- A label is the truncated digest, below `2 ^ 254`, of bytes that determine what it was made
from: above node zero the replica identifier, the layer, the node and the parents, among parent
lists of one length; for node zero, whose parents do not matter, the replica identifier and the
layer. No node above zero shares its bytes with node zero. -/
theorem preimage_determines_inputs (replicaId replicaId' : Element) (layer layer' : UInt32) :
    (∀ (node node' : UInt64) (parents parents' : List Element), 0 < node → 0 < node' →
      parents.length = parents'.length → parents.length ≤ hashedParents →
      (preimage replicaId layer node parents = preimage replicaId' layer' node' parents' ↔
        replicaId = replicaId' ∧ layer = layer' ∧ node = node' ∧ parents = parents')) ∧
    (∀ parents parents' : List Element,
      preimage replicaId layer 0 parents = preimage replicaId' layer' 0 parents' ↔
        replicaId = replicaId' ∧ layer = layer') ∧
    (∀ (node : UInt64) (parents parents' : List Element), 0 < node →
      preimage replicaId layer 0 parents ≠ preimage replicaId' layer' node parents') ∧
    ∀ (node : UInt64) (parents : List Element),
      hash replicaId layer node parents
        = (Sha256.digest (preimage replicaId layer node parents)).truncate ∧
      (hash replicaId layer node parents).value < 2 ^ 254 ∧
      (hash replicaId layer node parents).IsCanonical := by
  refine ⟨?_, ?_, ?_, ?_⟩
  · intro node node' parents parents' hpos hpos' hlen hle
    -- behind the header stand the labels, repeated in the same way as there are equally many
    have habsorbed : absorbed node parents = absorbed node' parents' ↔ parents = parents' := by
      unfold absorbed
      rw [if_neg (UInt64.pos_iff_ne_zero.mp hpos), if_neg (UInt64.pos_iff_ne_zero.mp hpos'),
        takeCyclic_inj hlen hle]
    rw [preimage_eq_iff, habsorbed]
  · intro parents parents'
    rw [preimage_eq_iff]
    simp [absorbed]
  · intro node parents parents' hpos h
    obtain ⟨-, -, hnode, -⟩ := preimage_eq_iff.mp h
    exact UInt64.pos_iff_ne_zero.mp hpos hnode.symm
  · intro node parents
    exact ⟨rfl, Element.value_truncate_lt _, isCanonical_hash _ _ _ _⟩

/-- Of thirty-seven parents even the last one counts. -/
theorem preimage_ne_of_last_parent :
    preimage .zero 1 5 (List.replicate 37 .zero)
      ≠ preimage .zero 1 5 (List.replicate 36 .zero ++ [.ofNat 1]) := by
  obtain ⟨hdetermines, -⟩ := preimage_determines_inputs .zero .zero 1 1
  have hinputs := hdetermines 5 5 (List.replicate 37 .zero) (List.replicate 36 .zero ++ [.ofNat 1])
    (by decide) (by decide) (by decide) (by decide)
  intro h
  obtain ⟨-, -, -, hparents⟩ := hinputs.mp h
  exact absurd hparents (by decide)

-- The number of parents does not go in: a parent and the same one twice are not told apart.
example (replicaId parent : Element) (layer : UInt32) (node : UInt64) :
    preimage replicaId layer node [parent] = preimage replicaId layer node [parent, parent] := rfl

end Label

end Replication
