import Replication.Poseidon.RoundConstants

/-!
# The Poseidon hash

A state of `arity + 1` scalars, which starts from a tag of the arity and the inputs, goes through
four full rounds, a number of partial rounds and four full rounds. A round adds constants,
raises scalars to the fifth power (all of them, or the first one only) and multiplies by a fixed
matrix. The digest is the second scalar.
-/

namespace Replication.Poseidon

/-- Everything a permutation is computed from. -/
structure Parameters where
  shape : Shape
  constants : List (List Nat)
  matrix : List (List Nat)

/-- The matrix with the entries `1 / (i + j + width)`. -/
def mixingMatrix (width : Nat) : List (List Nat) :=
  let inverses := (List.range (2 * width)).map fun k => Scalar.inverseModulo (k + width)
  (List.range width).map fun i => (inverses.drop i).take width

/-- The parameters of a shape. -/
def Parameters.ofShape (shape : Shape) : Parameters :=
  ⟨shape, shape.roundConstants, mixingMatrix shape.width⟩

/-- The fifth power. -/
def fifthPower (x : Nat) : Nat :=
  let square := x * x % modulus
  square * square % modulus * x % modulus

/-- The sum of products of two lists, added to `sum`. -/
def sumProducts : Nat → List Nat → List Nat → Nat
  | sum, x :: xs, y :: ys => sumProducts (sum + x * y) xs ys
  | sum, _, _ => sum

/-- The product of the matrix and the state. -/
def mixState (matrix : List (List Nat)) (state : List Nat) : List Nat :=
  matrix.map fun row => sumProducts 0 row state % modulus

/-- A round with the S-box on the whole state. -/
def fullRound (matrix : List (List Nat)) (state constants : List Nat) : List Nat :=
  mixState matrix ((state.zipWith (· + ·) constants).map fifthPower)

/-- A round with the S-box on the first scalar only. -/
def partialRound (matrix : List (List Nat)) (state constants : List Nat) : List Nat :=
  mixState matrix ((state.zipWith (· + ·) constants).modifyHead fifthPower)

/-- All rounds on a state. -/
def Parameters.permute (params : Parameters) (state : List Nat) : List Nat :=
  let half := fullRounds / 2
  let first := params.constants.take half
  let middle := (params.constants.drop half).take params.shape.partialRounds
  let last := params.constants.drop (half + params.shape.partialRounds)
  let state := first.foldl (fullRound params.matrix) state
  let state := middle.foldl (partialRound params.matrix) state
  last.foldl (fullRound params.matrix) state

/-- The digest of at most `arity` scalars; missing ones are zero. -/
def Parameters.digest (params : Parameters) (inputs : List Scalar) : Scalar :=
  let arity := params.shape.arity
  let absorbed := inputs.map Fin.val ++ List.replicate (arity - inputs.length) 0
  Scalar.ofNat ((params.permute ((2 ^ arity - 1) :: absorbed)).getD 1 0)

/-- The permutation of two scalars. -/
def ofTwo : Parameters := .ofShape ⟨2, 55⟩

/-- The permutation of four scalars. -/
def ofFour : Parameters := .ofShape ⟨4, 56⟩

/-- The permutation of eight scalars. -/
def ofEight : Parameters := .ofShape ⟨8, 57⟩

/-- The permutation of eleven scalars, for columns of eleven labels. -/
def ofEleven : Parameters := .ofShape ⟨11, 57⟩

/-- The permutation of thirty-six scalars, for chains. -/
def ofThirtySix : Parameters := .ofShape ⟨36, 60⟩

end Replication.Poseidon
