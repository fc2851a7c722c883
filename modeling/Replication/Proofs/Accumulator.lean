import Mathlib.Data.List.DropRight
import Replication.Accumulator
import Replication.Proofs.Digests

/-!
# The routes to the digest of a node

The digest of a node can be had from its children, from their bytes one after the other, from an
accumulator that is fed the children, and for two children as a pair. The routes agree, whatever
the accumulator was fed before. A SHA-256 accumulator has to be cleared first, for it digests
everything since it was last cleared (`run_sha256`, by induction over the operations with
`after_sha256` for one of them). A Poseidon accumulator never digests what it was fed before
(`nodeOf_poseidon`).
-/

namespace Replication

/-! ## Nodes without an accumulator -/

namespace Poseidon

/-- A piece that is the bytes of an element is read as the element is. -/
theorem scalarOfPiece_bytes (e : Element) : scalarOfPiece e.bytes = e.expectScalar := by
  rw [scalarOfPiece, Element.ofBytes?_eq_some_iff.mpr rfl]

/-- Cutting the joined bytes of elements and reading each piece is reading the elements. -/
theorem mapM_scalarOfPiece_concatBytes (elements : List Element) :
    (pieces nodeSize (HashFamily.concatBytes elements)).mapM scalarOfPiece
      = expectScalars elements := by
  rw [HashFamily.pieces_concatBytes, List.mapM_map, expectScalars]
  exact Result.mapM_congr fun e _ => scalarOfPiece_bytes e

theorem digestScalars_two (x y : Scalar) :
    digestScalars [x, y] = .ok (ofTwo.digest [x, y]) := by
  have hparams : ofChildCount? [x, y].length = some ofTwo := rfl
  rw [digestScalars, hparams]

theorem digestChildren_two (left right : Element) :
    digestChildren [left, right] = (do
      let x ← left.expectScalar
      let y ← right.expectScalar
      digestScalars [x, y]) := by
  have hparams : ofChildCount? [left, right].length = some ofTwo := rfl
  rw [digestChildren, hparams, expectScalars, List.mapM_cons, List.mapM_cons, List.mapM_nil]
  simp only [digestScalars_two]
  cases left.expectScalar with
  | error failure => rfl
  | ok x =>
    cases right.expectScalar with
    | error failure => rfl
    | ok y => rfl

end Poseidon

namespace HashFamily

/-- The bytes of as many children as Poseidon supports have the digest of the children, also where
a child is outside the field. -/
theorem poseidon_digest_concatBytes {children : List Element}
    (hlen : children.length ∈ [2, 4, 8]) :
    poseidon.digest (concatBytes children) = poseidon.node children := by
  obtain ⟨params, hparams⟩ :=
    Option.isSome_iff_exists.mp (Poseidon.ofChildCount?_isSome_iff.mpr hlen)
  rw [digest, node, Poseidon.digestBytes, Poseidon.digestChildren, hparams,
    Poseidon.mapM_scalarOfPiece_concatBytes]
  cases hscalars : Poseidon.expectScalars children with
  | error failure => rfl
  | ok scalars =>
    rw [Result.ok_bind, Poseidon.digestScalars, Result.length_of_mapM hscalars, hparams]
    rfl

/-- A pair is a node with two children. -/
theorem pair_eq_node (family : HashFamily) (left right : Element) :
    family.pair left right = family.node [left, right] := by
  cases family with
  | poseidon =>
    rw [pair, node, Poseidon.digestChildren_two]
    simp only [Poseidon.digestScalars_two]
    cases left.expectScalar with
    | error failure => rfl
    | ok x =>
      cases right.expectScalar with
      | error failure => rfl
      | ok y => rfl
  | sha256 => rw [pair, node, concatBytes, List.flatMap_cons, List.flatMap_singleton]

end HashFamily

namespace Accumulator

/-! ## Nodes of an accumulator -/

/-- Two children are hashed in the same way as any number of them. -/
theorem node_eq_nodeOf (acc : Accumulator) (left right : Element) :
    acc.node left right = acc.nodeOf [left, right] := by
  cases acc with
  | poseidon last => simp only [node, nodeOf, Poseidon.digestChildren_two, bind_assoc]
  | sha256 absorbed =>
    rw [node, nodeOf, HashFamily.concatBytes, List.flatMap_cons, List.flatMap_singleton,
      List.append_assoc]

/-- A Poseidon accumulator digests the children alone and stays as it is. -/
theorem nodeOf_poseidon (last : Scalar) (children : List Element) :
    (poseidon last).nodeOf children
      = (HashFamily.poseidon.node children).map fun digest => (digest, poseidon last) := by
  rw [nodeOf, HashFamily.node]
  cases Poseidon.digestChildren children with
  | error failure => rfl
  | ok digest => rfl

/-! ## Histories -/

/-- What can be asked of an accumulator. -/
inductive Operation
  | write (bytes : Bytes)
  | writeElement (e : Element)
  | node (left right : Element)
  | nodeOf (children : List Element)
  | leaf (e : Element)
  | current
  | clear

namespace Operation

/-- Whether the operation makes the accumulator forget. -/
def isClear : Operation → Bool
  | clear => true
  | _ => false

/-- The bytes that an operation feeds to a SHA-256 accumulator. -/
def fed : Operation → Bytes
  | write bytes => bytes
  | writeElement e => e.bytes
  | node left right => left.bytes ++ right.bytes
  | nodeOf children => HashFamily.concatBytes children
  | leaf _ | current | clear => []

end Operation

/-- The accumulator that an operation leaves behind: the one it answers, and the one it was asked
of where it fails. -/
def settle (acc : Accumulator) : Result Accumulator → Accumulator
  | .ok next => next
  | .error _ => acc

/-- The accumulator after an operation. -/
def after (acc : Accumulator) : Operation → Accumulator
  | .write bytes => acc.settle (acc.write bytes)
  | .writeElement e => acc.settle (acc.writeElement e)
  | .node left right => acc.settle ((acc.node left right).map Prod.snd)
  | .nodeOf children => acc.settle ((acc.nodeOf children).map Prod.snd)
  | .leaf _ | .current => acc
  | .clear => acc.clear

/-- The accumulator after operations on an empty one. -/
def run (family : HashFamily) (ops : List Operation) : Accumulator := ops.foldl after (empty family)

/-- The bytes fed by the operations after the last one that clears, or by all if none clears. -/
def fedSinceClear (ops : List Operation) : Bytes :=
  (ops.rtakeWhile fun op => !op.isClear).flatMap Operation.fed

example : fedSinceClear [.write [1], .clear, .write [2], .current, .write [3]] = [2, 3] := by decide

/-- One operation on the SHA-256 state either appends the bytes it is fed or, if it is a clear,
forgets all that was absorbed. -/
theorem after_sha256 (absorbed : Bytes) (op : Operation) :
    (sha256 absorbed).after op = sha256 (if op.isClear then [] else absorbed ++ op.fed) := by
  cases op with
  | write bytes => rfl
  | writeElement e => rfl
  | node left right => exact congrArg sha256 (List.append_assoc _ _ _)
  | nodeOf children => rfl
  | leaf e => exact congrArg sha256 (List.append_nil absorbed).symm
  | current => exact congrArg sha256 (List.append_nil absorbed).symm
  | clear => rfl

/-- A SHA-256 accumulator holds what it was fed since it was last cleared. -/
theorem run_sha256 (ops : List Operation) : run .sha256 ops = sha256 (fedSinceClear ops) := by
  induction ops using List.reverseRecOn with
  | nil => rfl
  | append_singleton ops op ih =>
    rw [run, List.foldl_concat, ← run, ih, after_sha256, fedSinceClear, fedSinceClear,
      List.rtakeWhile_concat]
    cases op.isClear with
    | false => simp
    | true => simp

/-- No operation turns a Poseidon state into a SHA-256 state. -/
theorem exists_after_poseidon (last : Scalar) (op : Operation) :
    ∃ next, (poseidon last).after op = poseidon next := by
  cases op with
  | write bytes =>
    rw [after, write]
    cases Poseidon.digestBytes bytes <;> exact ⟨_, rfl⟩
  | writeElement e =>
    rw [after, writeElement, write]
    cases Poseidon.digestBytes e.bytes <;> exact ⟨_, rfl⟩
  | node left right =>
    rw [after, node_eq_nodeOf, nodeOf_poseidon]
    cases HashFamily.poseidon.node [left, right] <;> exact ⟨_, rfl⟩
  | nodeOf children =>
    rw [after, nodeOf_poseidon]
    cases HashFamily.poseidon.node children <;> exact ⟨_, rfl⟩
  | leaf e => exact ⟨_, rfl⟩
  | current => exact ⟨_, rfl⟩
  | clear => exact ⟨_, rfl⟩

/-- A Poseidon accumulator stays one. -/
theorem exists_run_poseidon (ops : List Operation) : ∃ last, run .poseidon ops = poseidon last := by
  induction ops using List.reverseRecOn with
  | nil => exact ⟨_, rfl⟩
  | append_singleton ops op ih =>
    obtain ⟨last, hlast⟩ := ih
    rw [run, List.foldl_concat, ← run, hlast]
    exact exists_after_poseidon last op

/-! ## Agreement -/

/-- After any operations and a clear, a SHA-256 accumulator gives a node the digest of the bytes of
its children, and two children that of the pair; without the clear its own digest is that of all
that was fed since the last one. After any operations, cleared or not, a Poseidon accumulator gives
two, four or eight canonical children the digest of their bytes, and two of them that of the
pair. -/
theorem routes_agree (ops : List Operation) :
    ((∀ children, ((run .sha256 ops).clear.nodeOf children).map Prod.fst
          = HashFamily.sha256.digest (HashFamily.concatBytes children)) ∧
      (∀ left right,
        ((run .sha256 ops).clear.node left right).map Prod.fst
            = HashFamily.sha256.pair left right ∧
          (run .sha256 ops).clear.node left right
            = (run .sha256 ops).clear.nodeOf [left, right]) ∧
      .ok (run .sha256 ops).current = HashFamily.sha256.digest (fedSinceClear ops)) ∧
    (∀ children : List Element, children.length ∈ [2, 4, 8] → (∀ e ∈ children, e.IsCanonical) →
      ∃ digest, HashFamily.poseidon.digest (HashFamily.concatBytes children) = .ok digest ∧
        (run .poseidon ops).nodeOf children = .ok (digest, run .poseidon ops)) ∧
    ∀ left right : Element, left.IsCanonical → right.IsCanonical →
      ∃ digest, HashFamily.poseidon.pair left right = .ok digest ∧
        (run .poseidon ops).node left right = .ok (digest, run .poseidon ops) ∧
        (run .poseidon ops).nodeOf [left, right] = .ok (digest, run .poseidon ops) := by
  obtain ⟨last, hlast⟩ := exists_run_poseidon ops
  rw [run_sha256, hlast]
  refine ⟨⟨?_, ?_, rfl⟩, ?_, ?_⟩
  · intro children
    rfl
  · intro left right
    refine ⟨?_, node_eq_nodeOf _ left right⟩
    rw [node_eq_nodeOf, HashFamily.pair_eq_node]
    rfl
  · intro children hlen hcanonical
    obtain ⟨digest, hdigest⟩ := HashFamily.exists_poseidon_node hlen hcanonical
    refine ⟨digest, ?_, ?_⟩
    · rw [HashFamily.poseidon_digest_concatBytes hlen, hdigest]
    · rw [nodeOf_poseidon, hdigest]
      rfl
  · intro left right hleft hright
    obtain ⟨digest, hdigest⟩ := HashFamily.exists_pair .poseidon hleft hright
    have hnodeOf : (poseidon last).nodeOf [left, right] = .ok (digest, poseidon last) := by
      rw [nodeOf_poseidon, ← HashFamily.pair_eq_node, hdigest]
      rfl
    exact ⟨digest, hdigest, (node_eq_nodeOf _ left right).trans hnodeOf, hnodeOf⟩

/-- A history with a clear in it. Behind the clear it feeds the numbers from one to four, two as a
node and two as bytes. -/
def sampleHistory : List Operation :=
  [.writeElement (.ofNat 5), .clear, .node (.ofNat 1) (.ofNat 2),
    .write (HashFamily.concatBytes [.ofNat 3, .ofNat 4])]

/-- The numbers below eight as children. -/
def sampleChildren : List Element := (List.range 8).map .ofNat

/-- All routes for eight distinct children and for the last two of them as a pair. The SHA-256
accumulator is cleared for them; without that it digests the four numbers it was fed. -/
theorem routes_agree_history :
    ((run .sha256 sampleHistory).clear.nodeOf sampleChildren).map Prod.fst
        = HashFamily.sha256.digest (HashFamily.concatBytes sampleChildren) ∧
      ((run .sha256 sampleHistory).clear.node (.ofNat 6) (.ofNat 7)).map Prod.fst
        = HashFamily.sha256.pair (.ofNat 6) (.ofNat 7) ∧
      .ok (run .sha256 sampleHistory).current = HashFamily.sha256.digest
        (HashFamily.concatBytes [.ofNat 1, .ofNat 2, .ofNat 3, .ofNat 4]) ∧
      (∃ digest,
        HashFamily.poseidon.digest (HashFamily.concatBytes sampleChildren) = .ok digest ∧
          (run .poseidon sampleHistory).nodeOf sampleChildren
            = .ok (digest, run .poseidon sampleHistory)) ∧
      ∃ digest, HashFamily.poseidon.pair (.ofNat 6) (.ofNat 7) = .ok digest ∧
        (run .poseidon sampleHistory).node (.ofNat 6) (.ofNat 7)
          = .ok (digest, run .poseidon sampleHistory) := by
  have hchildren : ∀ e ∈ sampleChildren, e.IsCanonical := by decide +kernel
  have hfed : fedSinceClear sampleHistory
      = HashFamily.concatBytes [.ofNat 1, .ofNat 2, .ofNat 3, .ofNat 4] := by decide +kernel
  obtain ⟨⟨hnodes, hpairs, hcurrent⟩, hposeidon, hposeidonPairs⟩ := routes_agree sampleHistory
  obtain ⟨digest, hdigest, hnode, -⟩ := hposeidonPairs (.ofNat 6) (.ofNat 7)
    (hchildren _ (by decide +kernel)) (hchildren _ (by decide +kernel))
  rw [hfed] at hcurrent
  exact ⟨hnodes sampleChildren, (hpairs _ _).1, hcurrent, hposeidon _ (by decide) hchildren, digest,
    hdigest, hnode⟩

end Accumulator

end Replication
