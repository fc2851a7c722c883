/-!
# Failures

Every operation of the library that can go wrong returns a `Result`. A failure is either a
*refusal*, an answer the caller is meant to handle, or an *abort*, a computation that has no
value at all (a machine word that overflowed, a position outside a buffer, bytes that are no
field element where one was promised).

Refusals are causes. Their wording is one function, `Refusal.message`, and a cause may be
wrapped by the construction during which it arose.
-/

namespace Replication

/-- Reasons to refuse the parameters of a graph, or a graph as a range to draw from. -/
inductive GraphDefect
  | degreeTooLarge (degree limit : Nat)
  | baseDegreeTooSmall (degree : Nat)
  | nodeCount (nodes : Nat)
  | tooManyMetagraphNodes
  | tooFewLeaves (leaves : Nat)
deriving DecidableEq

/-- Reasons to refuse a proof before its contents are looked at. -/
inductive ShapeDefect
  | stepIndex (index arity : Nat)
  | columnRows (column rows expected : Nat)
  | labelCount (expected actual : Nat)
  | compoundTree
  | partitionSize (partition proofs expected : Nat)
  | noProofs
  | stated (reason : String)
deriving DecidableEq

/-- The trees of a sector whose construction is named when it fails. -/
inductive TreeRole
  | base
  | column
deriving DecidableEq

/-- Conditions a prover or a converter asks of its inputs. -/
inductive Precondition
  | enoughLayers
  | labelledLayers (expected actual : Nat)
  | commitmentKnown
  | dataRoot
  | columnRoot
  | replicaRoot
  | dataTreeLeaves (actual expected : Nat)
  | validProof (challenge : Nat)
  | elementBytes (unit : String)
  | flatTooShort
  | flatLength
deriving DecidableEq

/-- What a tree of equal branches asks of its numbers of leaves and branches. -/
inductive TreeRule
  | sizePowerOfTwo
  | branchesPowerOfTwo
deriving DecidableEq

/-- The causes an operation reports to its caller. -/
inductive Refusal
  | unsupportedColumnArity (rows : Nat)
  | malformedPorepId (length : Nat)
  | unevenPartitions (challenges partitions : Nat)
  | graph (defect : GraphDefect)
  | treeSize (leaves arity : Nat)
  | outOfBounds (position bound : Nat)
  | parentCount (expected actual : Nat)
  | pathLength (expected actual : Nat)
  | shape (defect : ShapeDefect)
  | dataLength (expected actual : Nat)
  | notInField
  | treeGeneration (rule : TreeRule)
  | unmet (condition : Precondition)
  | whileBuilding (tree : TreeRole) (cause : Refusal)
deriving DecidableEq

/-- Reasons for which a computation has no value. -/
inductive Abort
  | overflow
  | divisionByZero
  | outOfRange
  | lengthMismatch
  | notInField
  | digestArity (parts : Nat)
  | nodeArity (parts : Nat)
  | tooFewElements
  | elementBytes (unit : String)
  | noShortDigest
deriving DecidableEq

/-- A refusal to report, or an abort. -/
inductive Failure
  | refused (cause : Refusal)
  | aborted (reason : Abort)
deriving DecidableEq

/-- The outcome of an operation that can fail. -/
abbrev Result (α : Type) := Except Failure α

namespace GraphDefect

def message : GraphDefect → String
  | degreeTooLarge degree limit => s!"degree {degree} exceeds the {limit} hashed parents"
  | baseDegreeTooSmall degree => s!"base degree must be at least 2, got {degree}"
  | nodeCount nodes => s!"node count {nodes} does not fit a DRG"
  | tooManyMetagraphNodes =>
    "the number of metagraph nodes must be precisely castable to `f64`"
  | tooFewLeaves leaves => s!"too few leaves to challenge: {leaves}"

end GraphDefect

namespace ShapeDefect

def message : ShapeDefect → String
  | stepIndex index arity => s!"path index {index} does not fit arity {arity}"
  | columnRows column rows expected => s!"column {column} has {rows} rows, expected {expected}"
  | labelCount expected actual => s!"expected {expected} labeling proofs, got {actual}"
  | compoundTree => "compound tree proofs are not supported"
  | partitionSize partition proofs expected =>
    s!"partition {partition} has {proofs} proofs, expected {expected}"
  | noProofs => "no partition proofs to verify"
  | stated reason => reason

end ShapeDefect

namespace Precondition

def message : Precondition → String
  | enoughLayers => "at least two layers are required to prove"
  | labelledLayers expected actual => s!"expected labels for {expected} layers, got {actual}"
  | commitmentKnown => "tau is required for proving"
  | dataRoot => "comm_d does not match tree_d"
  | columnRoot => "comm_c does not match tree_c"
  | replicaRoot => "comm_r_last does not match tree_r_last"
  | dataTreeLeaves actual expected => s!"tree_d has {actual} leaves, expected {expected}"
  | validProof challenge => s!"invalid proof generated for challenge {challenge}"
  | elementBytes unit => s!"invalid {unit} of bytes"
  | flatTooShort => "Invalid lemma length (short)"
  | flatLength => "Invalid lemma length"

end Precondition

namespace TreeRule

def message : TreeRule → String
  | sizePowerOfTwo => "size MUST be a power of 2"
  | branchesPowerOfTwo => "branches MUST be a power of 2"

end TreeRule

namespace TreeRole

/-- The clause put before a cause that arose while this tree was built. -/
def clause : TreeRole → String
  | base => "failed to build base merkle tree"
  | column => "failed to build tree_c"

end TreeRole

namespace Refusal

def message : Refusal → String
  | unsupportedColumnArity rows => s!"unsupported column arity: {rows} (supported: 2, 11)"
  | malformedPorepId length => s!"malformed porep id: expected 32 bytes, got {length}"
  | unevenPartitions challenges partitions =>
    s!"{challenges} challenges cannot be split evenly across {partitions} partitions"
  | graph defect => "invalid graph parameters: " ++ defect.message
  | treeSize leaves arity => s!"{leaves} leaves cannot form a merkle tree of arity {arity}"
  | outOfBounds position bound => s!"Out of bounds access {position} > {bound}"
  | parentCount expected actual => s!"expected {expected} parents, got {actual}"
  | pathLength expected actual => s!"inclusion path has length {actual}, expected {expected}"
  | shape defect => "malformed proof: " ++ defect.message
  | dataLength expected actual => s!"data has length {actual}, expected {expected}"
  | notInField => "Bytes could not be converted to Fr"
  | treeGeneration rule => "merkle tree generation error: " ++ rule.message
  | unmet condition => condition.message
  | whileBuilding tree cause => tree.clause ++ ": " ++ cause.message

/-- The cause itself, without the constructions around it. -/
def root : Refusal → Refusal
  | whileBuilding _ cause => cause.root
  | cause => cause

end Refusal

namespace Abort

/-- The text that goes with an abort, where there is one. -/
def message? : Abort → Option String
  | notInField => some "from_repr failure"
  | digestArity parts => some s!"Unsupported arity for Poseidon hasher: {parts}"
  | nodeArity parts => some s!"unsupported arity {parts}"
  | tooFewElements => some "hash_md needs more than one element."
  | elementBytes unit => some s!"invalid {unit} of bytes"
  | _ => none

end Abort

/-- Reports `cause`. -/
def refuse {α : Type} (cause : Refusal) : Result α := .error (.refused cause)

/-- Ends a computation that has no value. -/
def abort {α : Type} (reason : Abort) : Result α := .error (.aborted reason)

namespace Result

/-- Goes on only if `p` holds; otherwise reports `cause`. -/
def require (p : Prop) [Decidable p] (cause : Refusal) : Result Unit :=
  if p then .ok () else refuse cause

/-- A yes-or-no check that cannot fail. -/
def check (p : Prop) [Decidable p] : Result Bool := .ok (decide p)

/-- Both checks, the second one only if the first says yes. -/
@[macro_inline]
def andAlso (first second : Result Bool) : Result Bool :=
  match first with
  | .ok true => second
  | other => other

/-- Every check in order, up to the first that says no or fails. -/
def allOf {α : Type} (f : α → Result Bool) : List α → Result Bool
  | [] => .ok true
  | x :: xs => andAlso (f x) (allOf f xs)

/-- Every step in order, up to the first failure. -/
def forEach {α : Type} (f : α → Result Unit) : List α → Result Unit
  | [] => .ok ()
  | x :: xs => do
    f x
    forEach f xs

/-- Runs `f` on `start`, `start + 1`, …, `count` values in all, up to the first failure. -/
def forRange {α : Type} (f : Nat → Result α) : Nat → Nat → Result (List α)
  | _, 0 => .ok []
  | start, count + 1 => do
    let x ← f start
    let xs ← forRange f (start + 1) count
    return x :: xs

/-- A sequence of two steps has a value only if both have. -/
theorem bind_eq_ok {α β : Type} {first : Result α} {next : α → Result β} {y : β}
    (h : first >>= next = .ok y) : ∃ x, first = .ok x ∧ next x = .ok y := by
  cases first with
  | error failure => cases h
  | ok x => exact ⟨x, rfl, h⟩

/-- Names the construction during which a refusal arose. -/
def whileBuilding {α : Type} (tree : TreeRole) : Result α → Result α
  | .error (.refused cause) => .error (.refused (.whileBuilding tree cause))
  | other => other

end Result

end Replication
