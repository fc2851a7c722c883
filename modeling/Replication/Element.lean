import Replication.Bytes
import Replication.Failure
import Replication.Scalar

/-!
# Elements

An element is a string of thirty-two bytes: a label, a node of data, a tree node, an identifier.
Read as a little-endian number it may stand for a scalar; it is *canonical* if that number is
below the order of the field. Clearing the two top bits of any element makes it canonical.

Scalars and canonical elements are in bijection: `scalar?_ofScalar` and `ofScalar_of_scalar?`.
-/

namespace Replication

/-- Thirty-two bytes. -/
structure Element where
  bytes : Bytes
  length_bytes : bytes.length = 32
deriving DecidableEq

/-- The identifier of a proof of replication. -/
abbrev PorepId := Element

/-- The number of bytes of a node. -/
def nodeSize : Nat := 32

namespace Element

/-- An element is its bytes: that there are 32 of them is a proof and not data. -/
@[ext] theorem ext_bytes {a b : Element} (h : a.bytes = b.bytes) : a = b := by
  cases a
  cases b
  simp_all

/-- The element with the given bytes, if there are thirty-two of them. -/
def ofBytes? (bytes : Bytes) : Option Element :=
  if h : bytes.length = 32 then some ⟨bytes, h⟩ else none

/-- The element of the thirty-two low digits of a number. -/
def ofNat (n : Nat) : Element := ⟨Bytes.natLE 32 n, Bytes.length_natLE 32 n⟩

/-- Thirty-two zero bytes. -/
def zero : Element := ⟨List.replicate 32 0, List.length_replicate⟩

instance : Inhabited Element := ⟨zero⟩

/-- The little-endian number an element stands for. -/
def value (e : Element) : Nat := Bytes.toNatLE e.bytes

/-- An element is canonical if its number is below the order of the field. -/
def IsCanonical (e : Element) : Prop := e.value < modulus

instance (e : Element) : Decidable e.IsCanonical :=
  inferInstanceAs (Decidable (e.value < modulus))

/-- The scalar that a canonical element stands for. -/
def scalar? (e : Element) : Option Scalar :=
  if h : e.value < modulus then some ⟨e.value, h⟩ else none

/-- The canonical element of a scalar. -/
def ofScalar (s : Scalar) : Element := ofNat s.val

/-- The scalar of an element; an element outside the field is refused. -/
def toScalar (e : Element) : Result Scalar :=
  match e.scalar? with
  | some s => .ok s
  | none => refuse .notInField

/-- The scalar of an element that is expected to be canonical. -/
def expectScalar (e : Element) : Result Scalar :=
  match e.scalar? with
  | some s => .ok s
  | none => abort .notInField

/-- The element with the two top bits cleared. -/
def truncate (e : Element) : Element :=
  ⟨e.bytes.modify 31 (· &&& 0x3f), by rw [List.length_modify, e.length_bytes]⟩

/-- The element of thirty-two bytes with the two top bits cleared. -/
def truncateBytes (bytes : Bytes) : Result Element :=
  match ofBytes? bytes with
  | some e => .ok e.truncate
  | none => abort .lengthMismatch

/-- A buffer of exactly thirty-two bytes with an element written over it. -/
def copyOver (e : Element) (buffer : Bytes) : Result Bytes :=
  if buffer.length = nodeSize then .ok e.bytes else abort .lengthMismatch

/-- The element that bytes stand for, if there are thirty-two of them and they are canonical. -/
def ofCanonicalBytes (bytes : Bytes) : Result Element :=
  match ofBytes? bytes with
  | some e => e.toScalar.map fun _ => e
  | none => refuse .notInField

theorem ofNat_value (e : Element) : ofNat e.value = e := by
  apply ext_bytes
  have h := Bytes.natLE_toNatLE e.bytes
  rwa [e.length_bytes] at h

theorem value_ofNat {n : Nat} (h : n < 2 ^ 256) : (ofNat n).value = n := by
  unfold value ofNat
  rw [Bytes.toNatLE_natLE]
  exact Nat.mod_eq_of_lt h

theorem value_ofScalar (s : Scalar) : (ofScalar s).value = s.val :=
  value_ofNat (Nat.lt_trans s.isLt (by decide))

/-- Reading the element of a scalar gives the scalar back. -/
theorem scalar?_ofScalar (s : Scalar) : (ofScalar s).scalar? = some s := by
  unfold scalar?
  rw [dif_pos (by rw [value_ofScalar]; exact s.isLt)]
  simp [value_ofScalar]

theorem ofScalar_of_scalar? {e : Element} {s : Scalar} (h : e.scalar? = some s) :
    ofScalar s = e := by
  unfold scalar? at h
  split at h
  · cases h
    exact ofNat_value e
  · cases h

/-- The canonical elements are the ones that read as a scalar. -/
theorem scalar?_isSome_iff {e : Element} : e.scalar?.isSome ↔ e.IsCanonical := by
  unfold scalar? IsCanonical
  split <;> simp_all

end Element

end Replication
