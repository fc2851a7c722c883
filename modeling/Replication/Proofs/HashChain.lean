import Replication.Proofs.Merkle.Position

/-!
# Chains of elements are bound to their elements

A chain compresses, step by step, the value so far with the next elements: thirty-five of them for
Poseidon, where zeros stand for missing ones, and one for SHA-256 (`chain_eq_foldlM`). The argument
goes from the last step back to the first. Equal digests come from equal inputs unless two inputs
collide, and the value that went into the last step is the digest of the step before. So chains of
equal length with the same digest are chains of the same elements, or they collide at some step
(`chain_binding`).
-/

namespace Replication

namespace Poseidon

theorem arity_ofThirtySix : ofThirtySix.shape.arity = 36 := rfl

/-- Zeros in the place of missing scalars are what the digest itself puts there. -/
theorem digest_append_replicate (params : Parameters) (inputs : List Scalar) :
    params.digest (inputs ++ List.replicate (params.shape.arity - inputs.length) 0)
      = params.digest inputs := by
  have hmissing : params.shape.arity
      - (inputs.length + (params.shape.arity - inputs.length)) = 0 := by omega
  unfold Parameters.digest
  simp only [List.map_append, List.map_replicate, List.length_append, List.length_replicate,
    hmissing, List.replicate_zero, List.append_nil]
  rfl

end Poseidon

theorem Element.ofScalar_zero : Element.ofScalar 0 = Element.zero := by
  apply Element.ext_bytes
  decide

namespace HashFamily

variable {family : HashFamily}

/-! ## Steps of a chain -/

/-- How many elements a step of a chain takes up besides the value so far. -/
def chainWidth : HashFamily → Nat
  | poseidon => Poseidon.chainPiece
  | sha256 => 1

/-- What a step of a chain compresses: the value so far and the next elements, with zeros for
missing ones. -/
def chainInput (family : HashFamily) (soFar : Element) (next : List Element) : List Element :=
  soFar :: next ++ List.replicate (family.chainWidth - next.length) .zero

/-- The function that a chain iterates. It takes thirty-six elements at once for Poseidon and two
for SHA-256. -/
def compress : HashFamily → List Element → Result Element
  | poseidon, inputs =>
    (Poseidon.expectScalars inputs).map fun scalars =>
      Element.ofScalar (Poseidon.ofThirtySix.digest scalars)
  | sha256, inputs => .ok (truncatedDigest (concatBytes inputs))

/-- One step of a chain. -/
def absorb (family : HashFamily) (soFar : Element) (next : List Element) : Result Element :=
  family.compress (family.chainInput soFar next)

theorem chainWidth_pos (family : HashFamily) : 0 < family.chainWidth := by
  cases family <;> decide

/-- The input of a step has the value so far and the next elements at fixed places. -/
theorem chainInput_inj {soFar soFar' : Element} {next next' : List Element}
    (hlen : next.length = next'.length)
    (h : family.chainInput soFar next = family.chainInput soFar' next') :
    soFar = soFar' ∧ next = next' := by
  unfold chainInput at h
  rw [List.cons_append, List.cons_append, List.cons.injEq] at h
  exact ⟨h.1, (List.append_inj h.2 hlen).1⟩

/-- The Poseidon step of a chain hashes the scalars of its elements. -/
theorem compress_map_ofScalar (scalars : List Scalar) :
    poseidon.compress (scalars.map Element.ofScalar)
      = .ok (Element.ofScalar (Poseidon.ofThirtySix.digest scalars)) := by
  rw [compress, Poseidon.expectScalars_eq_ok_iff.mpr rfl, Except.map]

/-- A SHA-256 step hashes what was absorbed so far in front of the next element. -/
theorem absorb_sha256 (soFar next : Element) :
    sha256.absorb soFar [next] = .ok (truncatedDigest (soFar.bytes ++ next.bytes)) := by
  have hinput : sha256.chainInput soFar [next] = [soFar, next] := rfl
  rw [absorb, hinput, compress, concatBytes, List.flatMap_cons, List.flatMap_singleton]

/-- A Poseidon step on elements of scalars is the chain step on the scalars. -/
theorem absorb_poseidon (soFar : Scalar) (next : List Scalar) :
    poseidon.absorb (Element.ofScalar soFar) (next.map Element.ofScalar)
      = .ok (Element.ofScalar (Poseidon.chainStep soFar next)) := by
  have hinput : poseidon.chainInput (Element.ofScalar soFar) (next.map Element.ofScalar)
      = ((soFar :: next) ++ List.replicate (Poseidon.chainPiece - next.length) 0).map
          Element.ofScalar := by
    rw [chainInput, List.map_append, List.map_cons, List.map_replicate, List.length_map,
      Element.ofScalar_zero]
    rfl
  have hmissing : Poseidon.chainPiece - next.length
      = Poseidon.ofThirtySix.shape.arity - (soFar :: next).length := by
    rw [Poseidon.arity_ofThirtySix, List.length_cons, Poseidon.chainPiece]
    omega
  rw [absorb, hinput, compress_map_ofScalar, hmissing, Poseidon.digest_append_replicate,
    Poseidon.chainStep]

/-! ## Chains as iterated steps -/

theorem foldlM_absorb_sha256 (first : Element) (rest : List Element) :
    (rest.map fun next => [next]).foldlM sha256.absorb first
      = .ok (rest.foldl (fun soFar next => truncatedDigest (soFar.bytes ++ next.bytes)) first) := by
  induction rest generalizing first with
  | nil => rfl
  | cons next rest ih =>
    rw [List.map_cons, List.foldlM_cons, absorb_sha256, Result.ok_bind, ih, List.foldl_cons]

/-- A Poseidon chain of scalars runs without leaving the scalars. -/
theorem foldlM_absorb_poseidon (first : Scalar) (groups : List (List Scalar)) :
    (groups.map (List.map Element.ofScalar)).foldlM poseidon.absorb (Element.ofScalar first)
      = .ok (Element.ofScalar (groups.foldl Poseidon.chainStep first)) := by
  induction groups generalizing first with
  | nil => rfl
  | cons next groups ih =>
    rw [List.map_cons, List.foldlM_cons, absorb_poseidon, Result.ok_bind, ih, List.foldl_cons]

/-- A Poseidon chain is the fold of the chain step over the pieces of its scalars. -/
theorem chain_poseidon {first second : Element} {rest : List Element} {x : Scalar}
    {xs : List Scalar} (h : Poseidon.expectScalars (first :: second :: rest) = .ok (x :: xs)) :
    poseidon.chain (first :: second :: rest)
      = .ok (Element.ofScalar ((pieces Poseidon.chainPiece xs).foldl Poseidon.chainStep x)) := by
  rw [chain, h]
  · rfl
  · intro habsurd
    cases habsurd
  · intro head habsurd
    cases habsurd

/-- The chain of canonical elements takes them up piece by piece, starting from the first one. -/
theorem chain_eq_foldlM (family : HashFamily) {first : Element} {rest : List Element}
    (hrest : rest ≠ []) (hcanonical : ∀ e ∈ first :: rest, e.IsCanonical) :
    family.chain (first :: rest)
      = (pieces family.chainWidth rest).foldlM family.absorb first := by
  match rest with
  | second :: rest =>
    cases family with
    | sha256 =>
      rw [chainWidth, pieces_one, foldlM_absorb_sha256]
      rfl
    | poseidon =>
      obtain ⟨scalars, hscalars⟩ := Poseidon.exists_expectScalars hcanonical
      have helements := Poseidon.expectScalars_eq_ok_iff.mp hscalars
      match scalars with
      | x :: xs =>
        rw [List.map_cons, List.cons.injEq] at helements
        rw [chain_poseidon hscalars, ← helements.1, ← helements.2, pieces_map]
        exact (foldlM_absorb_poseidon x (pieces Poseidon.chainPiece xs)).symm

/-! ## Binding -/

/-- The inputs of the steps that take up groups of elements, one after the other. -/
def compressedFrom (family : HashFamily) : Element → List (List Element) → List (List Element)
  | _, [] => []
  | soFar, next :: groups =>
    family.chainInput soFar next ::
      match family.absorb soFar next with
      | .ok digest => compressedFrom family digest groups
      | .error _ => []

/-- The inputs of the steps of a chain, in their order. -/
def compressed (family : HashFamily) : List Element → List (List Element)
  | [] => []
  | first :: rest => family.compressedFrom first (pieces family.chainWidth rest)

/-- The inputs of a chain's steps are that of the first and those of the chain behind it. -/
theorem compressedFrom_cons {soFar digest : Element} {next : List Element}
    (groups : List (List Element)) (h : family.absorb soFar next = .ok digest) :
    family.compressedFrom soFar (next :: groups)
      = family.chainInput soFar next :: family.compressedFrom digest groups := by
  rw [compressedFrom, h]

/-- What the last step compresses is compressed to the digest. -/
theorem getLast?_compressedFrom {soFar digest : Element} {groups : List (List Element)}
    (hne : groups ≠ []) (h : groups.foldlM family.absorb soFar = .ok digest) :
    ((family.compressedFrom soFar groups).map family.compress).getLast? = some (.ok digest) := by
  induction groups generalizing soFar with
  | nil => exact absurd rfl hne
  | cons next groups ih =>
    rw [List.foldlM_cons] at h
    obtain ⟨value, hvalue, hgroups⟩ := Result.bind_eq_ok h
    rw [compressedFrom_cons groups hvalue, List.map_cons, List.getLast?_cons]
    match groups with
    | [] =>
      cases hgroups
      exact congrArg some hvalue
    | _ :: _ =>
      rw [ih (List.cons_ne_nil _ _) hgroups]
      rfl

/-- What is compressed last is compressed to the digest of the chain. -/
theorem getLast?_compressed {first digest : Element} {rest : List Element} (hrest : rest ≠ [])
    (hcanonical : ∀ e ∈ first :: rest, e.IsCanonical)
    (h : family.chain (first :: rest) = .ok digest) :
    ((family.compressed (first :: rest)).map family.compress).getLast? = some (.ok digest) := by
  rw [chain_eq_foldlM family hrest hcanonical] at h
  have hpieces : pieces family.chainWidth rest ≠ [] := by
    intro hnil
    apply hrest
    rw [← flatten_pieces family.chainWidth_pos rest, hnil, List.flatten_nil]
  exact getLast?_compressedFrom hpieces h

/-- Steps to the same digest that take up groups of the same lengths start from the same value and
take up the same groups, unless they collide. -/
theorem eq_of_foldlM_absorb {first first' digest : Element} {groups groups' : List (List Element)}
    (hlen : groups.map List.length = groups'.map List.length)
    (h : groups.foldlM family.absorb first = .ok digest)
    (h' : groups'.foldlM family.absorb first' = .ok digest)
    (hcollide : ¬ CollideInPlace family.compress (family.compressedFrom first groups)
      (family.compressedFrom first' groups')) : first = first' ∧ groups = groups' := by
  induction groups generalizing first first' groups' with
  | nil =>
    rw [List.map_eq_nil_iff.mp hlen.symm] at h' ⊢
    cases h
    cases h'
    exact ⟨rfl, rfl⟩
  | cons next groups ih =>
    match groups' with
    | [] => cases hlen
    | next' :: groups' =>
      rw [List.map_cons, List.map_cons, List.cons.injEq] at hlen
      rw [List.foldlM_cons] at h h'
      obtain ⟨value, hvalue, hgroups⟩ := Result.bind_eq_ok h
      obtain ⟨value', hvalue', hgroups'⟩ := Result.bind_eq_ok h'
      rw [compressedFrom_cons groups hvalue, compressedFrom_cons groups' hvalue'] at hcollide
      -- from here on the steps agree, so the two inputs here have the same digest
      obtain ⟨rfl, rfl⟩ := ih hlen.2 hgroups hgroups' fun hlater => by
        obtain ⟨inputs, hinputs, hne⟩ := hlater
        exact hcollide ⟨inputs, List.mem_cons_of_mem _ hinputs, hne⟩
      have hinput : family.chainInput first next = family.chainInput first' next' := by
        by_contra hne
        exact hcollide ⟨_, List.mem_cons_self, hne, value, hvalue, hvalue'⟩
      obtain ⟨rfl, rfl⟩ := chainInput_inj hlen.1 hinput
      exact ⟨rfl, rfl⟩

/-- Two or more canonical elements have a chain digest in either family. -/
theorem exists_chain (family : HashFamily) {elements : List Element}
    (htwo : 2 ≤ elements.length) (hcanonical : ∀ e ∈ elements, e.IsCanonical) :
    ∃ digest, family.chain elements = .ok digest := by
  match elements with
  | first :: second :: rest =>
    cases family with
    | sha256 => exact ⟨_, rfl⟩
    | poseidon =>
      obtain ⟨scalars, hscalars⟩ := Poseidon.exists_expectScalars hcanonical
      have hlen := Result.length_of_mapM hscalars
      match scalars with
      | x :: xs => exact ⟨_, chain_poseidon hscalars⟩

/-- Every list of at least two canonical elements has a chain, and lists of one length whose chains
have the same digest are the same list, or at some step of the two chains different inputs are
compressed to the same value. -/
theorem chain_binding (family : HashFamily) {xs ys : List Element} (hlen : xs.length = ys.length)
    (htwo : 2 ≤ xs.length) (hxs : ∀ e ∈ xs, e.IsCanonical) (hys : ∀ e ∈ ys, e.IsCanonical) :
    ∃ digest digest', family.chain xs = .ok digest ∧ family.chain ys = .ok digest' ∧
      (digest = digest' → xs = ys ∨
        CollideInPlace family.compress (family.compressed xs) (family.compressed ys)) := by
  obtain ⟨digest, hdigest⟩ := family.exists_chain htwo hxs
  obtain ⟨digest', hdigest'⟩ := family.exists_chain (hlen ▸ htwo) hys
  refine ⟨digest, digest', hdigest, hdigest', ?_⟩
  rintro rfl
  by_cases hcollide :
      CollideInPlace family.compress (family.compressed xs) (family.compressed ys)
  · exact .inr hcollide
  · left
    match xs, ys with
    | x :: xs, y :: ys =>
      rw [List.length_cons] at htwo
      rw [List.length_cons, List.length_cons, Nat.succ.injEq] at hlen
      have hne : xs ≠ [] := List.ne_nil_of_length_pos (by omega)
      have hne' : ys ≠ [] := List.ne_nil_of_length_pos (by omega)
      rw [chain_eq_foldlM family hne hxs] at hdigest
      rw [chain_eq_foldlM family hne' hys] at hdigest'
      obtain ⟨rfl, hpieces⟩ := eq_of_foldlM_absorb (map_length_pieces _ hlen) hdigest hdigest'
        hcollide
      rw [← flatten_pieces family.chainWidth_pos xs, hpieces,
        flatten_pieces family.chainWidth_pos ys]

/-- Seventy-two elements go through Poseidon in three steps, the last of them for one element. -/
theorem chain_binding_threeSteps :
    ∃ digest digest', poseidon.chain (List.replicate 72 .zero) = .ok digest ∧
      poseidon.chain (List.replicate 71 .zero ++ [Element.ofNat 1]) = .ok digest' ∧
      (digest = digest' → CollideInPlace poseidon.compress
        (poseidon.compressed (List.replicate 72 .zero))
        (poseidon.compressed (List.replicate 71 .zero ++ [Element.ofNat 1]))) := by
  have hzero : Element.zero.IsCanonical := by decide
  have hone : (Element.ofNat 1).IsCanonical := by decide
  have hzeros : ∀ count, ∀ e ∈ List.replicate count Element.zero, e.IsCanonical :=
    fun count => List.forall_mem_replicate.mpr (.inr hzero)
  have hys : ∀ e ∈ List.replicate 71 Element.zero ++ [Element.ofNat 1], e.IsCanonical := by
    rw [List.forall_mem_append, List.forall_mem_singleton]
    exact ⟨hzeros 71, hone⟩
  have hlen : (List.replicate 72 Element.zero).length
      = (List.replicate 71 Element.zero ++ [Element.ofNat 1]).length := by
    rw [List.length_append, List.length_replicate, List.length_replicate, List.length_singleton]
  have htwo : 2 ≤ (List.replicate 72 Element.zero).length := by
    rw [List.length_replicate]
    decide
  have hne : List.replicate 72 Element.zero
      ≠ List.replicate 71 Element.zero ++ [Element.ofNat 1] := by
    rw [List.replicate_succ', Ne, List.append_cancel_left_eq, List.singleton_inj]
    decide
  obtain ⟨digest, digest', hdigest, hdigest', hbinding⟩ :=
    chain_binding poseidon hlen htwo (hzeros 72) hys
  exact ⟨digest, digest', hdigest, hdigest', fun h => (hbinding h).resolve_left hne⟩

end HashFamily

end Replication
