import Replication.Column
import Replication.Proofs.Elements
import Replication.Replica.Params

/-!
# Digests are canonical and defined on canonical elements

Whatever a hash family answers is a canonical element. In return it answers on canonical elements:
for pairs always, for tree nodes with a supported number of children, and for columns with a
supported number of rows.
-/

namespace Replication

namespace Poseidon

/-- The scalars of elements are those that the elements are made of. -/
theorem expectScalars_eq_ok_iff {elements : List Element} {scalars : List Scalar} :
    expectScalars elements = .ok scalars ↔ scalars.map Element.ofScalar = elements := by
  unfold expectScalars
  rw [Result.mapM_eq_ok_iff, ← List.forall₂_eq_eq_eq, List.forall₂_map_left_iff]
  simp only [Element.expectScalar_eq_ok_iff]
  exact ⟨List.Forall₂.flip, List.Forall₂.flip⟩

/-- Canonical elements can all be read as scalars. -/
theorem exists_expectScalars {elements : List Element} (h : ∀ e ∈ elements, e.IsCanonical) :
    ∃ scalars, expectScalars elements = .ok scalars := by
  apply Result.exists_mapM
  intro e he
  obtain ⟨s, hs⟩ := Element.isCanonical_iff.mp (h e he)
  exact ⟨s, Element.expectScalar_eq_ok_iff.mpr hs⟩

/-- There is a permutation exactly for two, four and eight children. -/
theorem ofChildCount?_isSome_iff {count : Nat} :
    (ofChildCount? count).isSome ↔ count ∈ [2, 4, 8] := by
  unfold ofChildCount?
  split <;> simp_all

end Poseidon

namespace HashFamily

variable {family : HashFamily}

/-- A digest without its two highest bits is canonical. -/
theorem isCanonical_truncatedDigest (bytes : Bytes) : (truncatedDigest bytes).IsCanonical :=
  Element.isCanonical_truncate _

/-- Either family hashes two canonical elements. -/
theorem exists_pair (family : HashFamily) {a b : Element} (ha : a.IsCanonical)
    (hb : b.IsCanonical) : ∃ digest, family.pair a b = .ok digest := by
  cases family with
  | poseidon =>
    obtain ⟨x, hx⟩ := Element.isCanonical_iff.mp ha
    obtain ⟨y, hy⟩ := Element.isCanonical_iff.mp hb
    refine ⟨Element.ofScalar (Poseidon.ofTwo.digest [x, y]), ?_⟩
    rw [pair, Element.expectScalar_eq_ok_iff.mpr hx, Element.expectScalar_eq_ok_iff.mpr hy]
    rfl
  | sha256 => exact ⟨_, rfl⟩

/-- A node of a tree is canonical whatever its children are. -/
theorem isCanonical_of_node {children : List Element} {digest : Element}
    (h : family.node children = .ok digest) : digest.IsCanonical := by
  cases family with
  | poseidon =>
    obtain ⟨s, -, rfl⟩ := Result.map_eq_ok_iff.mp h
    exact Element.isCanonical_ofScalar s
  | sha256 =>
    cases h
    exact isCanonical_truncatedDigest _

/-- Poseidon hashes 2, 4 or 8 canonical children. -/
theorem exists_poseidon_node {children : List Element} (hlen : children.length ∈ [2, 4, 8])
    (hcanonical : ∀ e ∈ children, e.IsCanonical) :
    ∃ digest, poseidon.node children = .ok digest := by
  obtain ⟨scalars, hscalars⟩ := Poseidon.exists_expectScalars hcanonical
  obtain ⟨params, hparams⟩ :=
    Option.isSome_iff_exists.mp (Poseidon.ofChildCount?_isSome_iff.mpr hlen)
  refine ⟨Element.ofScalar (params.digest scalars), ?_⟩
  rw [node, Poseidon.digestChildren, hparams, hscalars]
  rfl

end HashFamily

namespace Merkle.Shape

/-- The arities of trees that can be built: a family must hash as many children as a node has,
and trees are only built for powers of two. -/
def supportedArities : HashFamily → List Nat
  | .poseidon => [2, 4, 8]
  | .sha256 => [2, 4, 8, 16]

/-- The shape is one of the trees that can be built. -/
def Supported (shape : Shape) : Prop := shape.arity ∈ supportedArities shape.family

instance (shape : Shape) : Decidable shape.Supported :=
  inferInstanceAs (Decidable (shape.arity ∈ supportedArities shape.family))

variable {shape : Shape}

/-- Trees of arity two are supported for either family. -/
theorem supported_binary (family : HashFamily) : (binary family).Supported := by
  cases family <;> decide

theorem Supported.arity_mem (h : shape.Supported) : shape.arity ∈ [2, 4, 8, 16] := by
  unfold Supported at h
  rcases hfamily : shape.family with _ | _
  · rw [hfamily] at h
    simp only [supportedArities, List.mem_cons, List.not_mem_nil, or_false] at h ⊢
    omega
  · rw [hfamily] at h
    exact h

theorem Supported.two_le_arity (h : shape.Supported) : 2 ≤ shape.arity := by
  have hmem := h.arity_mem
  simp only [List.mem_cons, List.not_mem_nil, or_false] at hmem
  omega

/-- Nodes of the shape have a hash: Poseidon takes two, four or eight children, SHA-256 any number
of them, where a tree with rows needs two. -/
def Hashes (shape : Shape) : Prop :=
  match shape.family with
  | .poseidon => shape.arity ∈ [2, 4, 8]
  | .sha256 => 2 ≤ shape.arity

theorem hashes_binary (family : HashFamily) : (binary family).Hashes := by
  cases family <;> simp [Hashes, binary]

/-- A supported shape can hash the children of all its nodes. -/
theorem Supported.hashes (h : shape.Supported) : shape.Hashes := by
  have htwo := h.two_le_arity
  unfold Supported at h
  unfold Hashes
  rcases hfamily : shape.family with _ | _
  · rwa [hfamily] at h
  · exact htwo

theorem Hashes.two_le_arity (h : shape.Hashes) : 2 ≤ shape.arity := by
  unfold Hashes at h
  rcases hfamily : shape.family with _ | _
  · simp only [hfamily, List.mem_cons, List.not_mem_nil, or_false] at h
    omega
  · rwa [hfamily] at h

/-- A shape that hashes has a digest for as many canonical children as its arity. -/
theorem Hashes.exists_node (h : shape.Hashes) {children : List Element}
    (hlen : children.length = shape.arity) (hcanonical : ∀ e ∈ children, e.IsCanonical) :
    ∃ digest, shape.family.node children = .ok digest := by
  unfold Hashes at h
  rcases hfamily : shape.family with _ | _
  · rw [hfamily] at h
    exact HashFamily.exists_poseidon_node (hlen ▸ h) hcanonical
  · exact ⟨_, rfl⟩

/-- Where one node was hashed, every node can be. -/
theorem hashes_of_node (htwo : 2 ≤ shape.arity) {children : List Element} {digest : Element}
    (hlen : children.length = shape.arity) (h : shape.family.node children = .ok digest) :
    shape.Hashes := by
  unfold Hashes
  rcases hfamily : shape.family with _ | _
  · rw [hfamily] at h
    obtain ⟨_, hdigest, -⟩ := Result.map_eq_ok_iff.mp h
    rw [← hlen, ← Poseidon.ofChildCount?_isSome_iff]
    unfold Poseidon.digestChildren at hdigest
    rcases hparams : Poseidon.ofChildCount? children.length with _ | params
    · rw [hparams] at hdigest
      cases hdigest
    · rfl
  · exact htwo

end Merkle.Shape

namespace Column

theorem isCanonical_of_hash {c : Column} {digest : Element} (h : c.hash = .ok digest) :
    digest.IsCanonical := by
  obtain ⟨_, _, h⟩ := Result.bind_eq_ok h
  obtain ⟨s, _, h⟩ := Result.bind_eq_ok h
  cases h
  exact Element.isCanonical_ofScalar s

/-- There is a permutation exactly for the numbers of layers that can be hashed. -/
theorem permutation?_isSome_iff {count : Nat} :
    (permutation? count).isSome ↔ count ∈ Params.supportedLayers := by
  unfold permutation?
  split <;> simp_all [Params.supportedLayers]

/-- Only columns of a supported number of rows have a digest. -/
theorem length_rows_of_hash {c : Column} {digest : Element} (h : c.hash = .ok digest) :
    c.rows.length ∈ Params.supportedLayers := by
  obtain ⟨scalars, hscalars, h⟩ := Result.bind_eq_ok h
  obtain ⟨s, hs, -⟩ := Result.bind_eq_ok h
  rw [← Result.length_of_mapM hscalars]
  rw [← permutation?_isSome_iff]
  unfold hashScalars at hs
  cases hparams : permutation? scalars.length with
  | some params => rfl
  | none =>
    rw [hparams] at hs
    cases hs

theorem exists_hash {c : Column} (hlen : c.rows.length ∈ Params.supportedLayers)
    (hcanonical : ∀ e ∈ c.rows, e.IsCanonical) : ∃ digest, c.hash = .ok digest := by
  have hscalars : ∃ scalars, c.rows.mapM Element.toScalar = .ok scalars := by
    apply Result.exists_mapM
    intro e he
    obtain ⟨s, hs⟩ := Element.isCanonical_iff.mp (hcanonical e he)
    exact ⟨s, Element.toScalar_eq_ok_iff.mpr hs⟩
  obtain ⟨scalars, hscalars⟩ := hscalars
  have hparams : ∃ params, permutation? scalars.length = some params := by
    rw [Result.length_of_mapM hscalars, ← Option.isSome_iff_exists]
    exact permutation?_isSome_iff.mpr hlen
  obtain ⟨params, hparams⟩ := hparams
  refine ⟨Element.ofScalar (params.digest scalars), ?_⟩
  rw [hash, hscalars, Result.ok_bind, hashScalars, hparams]
  rfl

end Column

end Replication
