import Mathlib.Algebra.Group.Fin.Basic
import Mathlib.Algebra.GroupWithZero.Nat
import Replication.Data
import Replication.Encoding
import Replication.Hasher
import Replication.Proofs.Outcome
import Replication.Proofs.Pieces

/-!
# Canonical elements, their scalars and their encodings

An element has a scalar exactly when it is canonical, and the scalar determines it. Encoding under
a key and decoding under the same key undo each other on canonical elements, and data is a list of
canonical elements exactly when its nodes can be read.
-/

namespace Replication

instance : NeZero modulus := ⟨by decide⟩

namespace Bytes

/-- The bytes behind others count with the weight of their place. -/
theorem toNatLE_append (xs ys : Bytes) :
    toNatLE (xs ++ ys) = toNatLE xs + 256 ^ xs.length * toNatLE ys := by
  induction xs with
  | nil => simp [toNatLE]
  | cons b xs ih =>
    rw [List.cons_append, toNatLE, toNatLE, ih, List.length_cons, Nat.pow_succ', Nat.mul_add,
      Nat.mul_assoc]
    omega

end Bytes

namespace Element

/-- An element reads as a scalar exactly if it is the element of that scalar. -/
theorem scalar?_eq_some_iff {e : Element} {s : Scalar} : e.scalar? = some s ↔ ofScalar s = e := by
  constructor
  · exact ofScalar_of_scalar?
  · rintro rfl
    exact scalar?_ofScalar s

theorem isCanonical_ofScalar (s : Scalar) : (ofScalar s).IsCanonical :=
  scalar?_isSome_iff.mp (by rw [scalar?_ofScalar]; rfl)

/-- The canonical elements are those of the scalars. -/
theorem isCanonical_iff {e : Element} : e.IsCanonical ↔ ∃ s, ofScalar s = e := by
  rw [← scalar?_isSome_iff, Option.isSome_iff_exists]
  exact exists_congr fun s => scalar?_eq_some_iff

/-- The reading that aborts on a non-canonical element succeeds on the same elements. -/
theorem expectScalar_eq_ok_iff {e : Element} {s : Scalar} :
    e.expectScalar = .ok s ↔ ofScalar s = e := by
  rw [← scalar?_eq_some_iff]
  unfold expectScalar
  cases e.scalar? <;> simp [abort]

theorem toScalar_eq_ok_iff {e : Element} {s : Scalar} :
    e.toScalar = .ok s ↔ ofScalar s = e := by
  rw [← scalar?_eq_some_iff]
  unfold toScalar
  cases e.scalar? <;> simp [refuse]

/-- With its two top bits cleared an element is below `2 ^ 254`. -/
theorem value_truncate_lt (e : Element) : e.truncate.value < 2 ^ 254 := by
  have hlen := e.length_bytes
  -- the last byte, which is the most significant one, is the one that is masked
  have hsplit : e.bytes.modify 31 (· &&& 0x3f)
      = e.bytes.take 31 ++ [e.bytes[31] &&& 0x3f] := by
    rw [List.modify_eq_take_cons_drop (by omega), List.drop_of_length_le (by omega)]
  have hlen31 : (e.bytes.take 31).length = 31 := by
    rw [List.length_take, hlen]
    rfl
  have hlow : Bytes.toNatLE (e.bytes.take 31) < 256 ^ 31 := by
    have h := Bytes.toNatLE_lt (e.bytes.take 31)
    rwa [hlen31] at h
  have hhigh : (e.bytes[31] &&& 0x3f).toNat ≤ 63 := by
    rw [UInt8.toNat_and]
    exact Nat.and_le_right
  have hvalue : e.truncate.value
      = Bytes.toNatLE (e.bytes.take 31) + 256 ^ 31 * (e.bytes[31] &&& 0x3f).toNat := by
    show Bytes.toNatLE (e.bytes.modify 31 (· &&& 0x3f)) = _
    rw [hsplit, Bytes.toNatLE_append, hlen31, Bytes.toNatLE, Bytes.toNatLE, Nat.mul_zero,
      Nat.add_zero]
  have hpow : 2 ^ 254 = 256 ^ 31 * 64 := by decide
  rw [hvalue, hpow]
  omega

theorem isCanonical_truncate (e : Element) : e.truncate.IsCanonical :=
  Nat.lt_trans (value_truncate_lt e) (by decide)

/-- Bytes make an element exactly if they are the bytes of one. -/
theorem ofBytes?_eq_some_iff {bytes : Bytes} {e : Element} :
    ofBytes? bytes = some e ↔ e.bytes = bytes := by
  unfold ofBytes?
  constructor
  · intro h
    split at h
    · cases h
      rfl
    · cases h
  · rintro rfl
    rw [dif_pos e.length_bytes]

/-- The checked reading accepts exactly the bytes of canonical elements. -/
theorem ofCanonicalBytes_eq_ok_iff {bytes : Bytes} {e : Element} :
    ofCanonicalBytes bytes = .ok e ↔ e.bytes = bytes ∧ e.IsCanonical := by
  rw [isCanonical_iff, ← ofBytes?_eq_some_iff]
  unfold ofCanonicalBytes
  cases hbytes : ofBytes? bytes with
  | none => simp [refuse]
  | some e' =>
    rw [Result.map_eq_ok_iff, Option.some.injEq]
    simp only [toScalar_eq_ok_iff]
    constructor
    · rintro ⟨s, hs, rfl⟩
      exact ⟨rfl, s, hs⟩
    · rintro ⟨rfl, s, hs⟩
      exact ⟨s, hs, rfl⟩

theorem neverAborts_ofCanonicalBytes (bytes : Bytes) :
    Result.NeverAborts (ofCanonicalBytes bytes) := by
  have hscalar : ∀ e : Element, Result.NeverAborts e.toScalar := by
    intro e
    unfold toScalar
    cases e.scalar? with
    | none => exact Result.neverAborts_refuse _
    | some s => exact Result.neverAborts_ok s
  unfold ofCanonicalBytes
  cases ofBytes? bytes with
  | none => exact Result.neverAborts_refuse _
  | some e => exact (hscalar e).map _

end Element

namespace Encoding

/-- Encoding adds the key to the value in the field, both canonical. -/
theorem encode_eq_ok_iff {key value encoded : Element} :
    encode key value = .ok encoded ↔ ∃ k v, Element.ofScalar k = key ∧
      Element.ofScalar v = value ∧ Element.ofScalar (k + v) = encoded := by
  simp only [encode, Result.bind_eq_ok_iff, Element.expectScalar_eq_ok_iff, Result.pure_eq_ok,
    Except.ok.injEq, exists_and_left]

/-- Decoding subtracts the key from the encoded value in the field, both canonical. -/
theorem decode_eq_ok_iff {key encoded value : Element} :
    decode key encoded = .ok value ↔ ∃ k v, Element.ofScalar k = key ∧
      Element.ofScalar v = encoded ∧ Element.ofScalar (v - k) = value := by
  simp only [decode, Result.bind_eq_ok_iff, Element.expectScalar_eq_ok_iff, Result.pure_eq_ok,
    Except.ok.injEq]
  constructor
  · rintro ⟨v, hv, k, hk, h⟩
    exact ⟨k, v, hk, hv, h⟩
  · rintro ⟨k, v, hk, hv, h⟩
    exact ⟨v, hv, k, hk, h⟩

/-- Encoding and decoding under one key undo each other. -/
theorem encode_eq_ok_iff_decode {key value encoded : Element} :
    encode key value = .ok encoded ↔ decode key encoded = .ok value := by
  rw [encode_eq_ok_iff, decode_eq_ok_iff]
  constructor
  · rintro ⟨k, v, hk, hv, h⟩
    exact ⟨k, k + v, hk, h, by rw [add_sub_cancel_left, hv]⟩
  · rintro ⟨k, v, hk, hv, h⟩
    exact ⟨k, v - k, hk, h, by rw [add_sub_cancel, hv]⟩

theorem exists_encode {key value : Element} (hkey : key.IsCanonical)
    (hvalue : value.IsCanonical) : ∃ encoded, encode key value = .ok encoded := by
  obtain ⟨k, hk⟩ := Element.isCanonical_iff.mp hkey
  obtain ⟨v, hv⟩ := Element.isCanonical_iff.mp hvalue
  exact ⟨_, encode_eq_ok_iff.mpr ⟨k, v, hk, hv, rfl⟩⟩

theorem exists_decode {key encoded : Element} (hkey : key.IsCanonical)
    (hencoded : encoded.IsCanonical) : ∃ value, decode key encoded = .ok value := by
  obtain ⟨k, hk⟩ := Element.isCanonical_iff.mp hkey
  obtain ⟨v, hv⟩ := Element.isCanonical_iff.mp hencoded
  exact ⟨_, decode_eq_ok_iff.mpr ⟨k, v, hk, hv, rfl⟩⟩

theorem isCanonical_of_encode {key value encoded : Element}
    (h : encode key value = .ok encoded) : encoded.IsCanonical := by
  obtain ⟨k, v, -, -, rfl⟩ := encode_eq_ok_iff.mp h
  exact Element.isCanonical_ofScalar _

end Encoding

/-! ## Data as a list of elements -/

namespace HashFamily

theorem length_concatBytes (elements : List Element) :
    (concatBytes elements).length = elements.length * nodeSize := by
  unfold concatBytes
  induction elements with
  | nil => simp
  | cons e rest ih =>
    rw [List.flatMap_cons, List.length_append, ih, e.length_bytes, List.length_cons, Nat.succ_mul,
      Nat.add_comm]
    rfl

/-- Joined elements are as long as `count` nodes exactly if there are `count` of them. -/
theorem length_concatBytes_eq_iff {elements : List Element} {count : Nat} :
    (concatBytes elements).length = count * nodeSize ↔ elements.length = count := by
  rw [length_concatBytes]
  exact Nat.mul_left_inj (by decide)

theorem concatBytes_cons (e : Element) (rest : List Element) :
    concatBytes (e :: rest) = e.bytes ++ concatBytes rest := rfl

/-- Cutting joined elements at the size of a node gives their bytes back. -/
theorem pieces_concatBytes (elements : List Element) :
    pieces nodeSize (concatBytes elements) = elements.map Element.bytes := by
  unfold concatBytes
  rw [List.flatMap_def]
  apply pieces_flatten (by decide)
  intro group hgroup
  obtain ⟨e, -, rfl⟩ := List.mem_map.mp hgroup
  exact e.length_bytes

/-- Joined bytes determine the elements they were joined from. -/
theorem concatBytes_injective {xs ys : List Element} (h : concatBytes xs = concatBytes ys) :
    xs = ys := by
  have hpieces : xs.map Element.bytes = ys.map Element.bytes := by
    rw [← pieces_concatBytes, ← pieces_concatBytes, h]
  exact List.map_injective_iff.mpr (fun _ _ => Element.ext_bytes) hpieces

end HashFamily

namespace Data

/-- The nodes of data can be read exactly when the data is made of canonical elements. -/
theorem nodes_eq_ok_iff {data : Bytes} {elements : List Element} :
    nodes data = .ok elements ↔
      HashFamily.concatBytes elements = data ∧ ∀ e ∈ elements, e.IsCanonical := by
  unfold nodes
  rw [Result.mapM_eq_ok_iff]
  constructor
  · intro h
    -- reading a piece keeps its bytes
    have hbytes : elements.map Element.bytes = pieces nodeSize data := by
      rw [← List.forall₂_eq_eq_eq, List.forall₂_map_left_iff]
      exact h.flip.imp fun e piece hpiece => (Element.ofCanonicalBytes_eq_ok_iff.mp hpiece).1
    constructor
    · rw [HashFamily.concatBytes, List.flatMap_def, hbytes, flatten_pieces (by decide)]
    · intro e he
      obtain ⟨i, hi, rfl⟩ := List.mem_iff_getElem.mp he
      have hi' : i < (pieces nodeSize data).length := by
        rw [h.length_eq]
        exact hi
      exact (Element.ofCanonicalBytes_eq_ok_iff.mp (h.get hi' hi)).2
  · rintro ⟨rfl, hcanonical⟩
    rw [HashFamily.pieces_concatBytes, List.forall₂_map_left_iff, List.forall₂_same]
    intro e he
    exact Element.ofCanonicalBytes_eq_ok_iff.mpr ⟨rfl, hcanonical e he⟩

/-- Data is made of so many canonical elements exactly if it has their size and its nodes, read as
numbers, are below the order of the field. -/
theorem exists_elements_iff {data : Bytes} {count : Nat} :
    (∃ elements, HashFamily.concatBytes elements = data ∧ elements.length = count ∧
      ∀ e ∈ elements, e.IsCanonical) ↔
      data.length = count * nodeSize ∧
        ∀ node ∈ pieces nodeSize data, Bytes.toNatLE node < modulus := by
  constructor
  · intro h
    obtain ⟨elements, rfl, hcount, hcanonical⟩ := h
    refine ⟨HashFamily.length_concatBytes_eq_iff.mpr hcount, ?_⟩
    rw [HashFamily.pieces_concatBytes, List.forall_mem_map]
    exact hcanonical
  · intro h
    obtain ⟨hlen, hlt⟩ := h
    have hread : ∃ elements, nodes data = .ok elements := by
      apply Result.exists_mapM
      intro node hnode
      exact ⟨⟨node, length_of_mem_pieces (by decide) hlen hnode⟩,
        Element.ofCanonicalBytes_eq_ok_iff.mpr ⟨rfl, hlt node hnode⟩⟩
    obtain ⟨elements, helements⟩ := hread
    obtain ⟨rfl, hcanonical⟩ := nodes_eq_ok_iff.mp helements
    exact ⟨elements, rfl, HashFamily.length_concatBytes_eq_iff.mp hlen, hcanonical⟩

/-- The bytes of a node can be read if they end inside the data, at a position that is a word. -/
theorem nodeAt_eq_ok_iff {data bytes : Bytes} {node : Nat} :
    nodeAt data node = .ok bytes ↔
      node * nodeSize + nodeSize < Word.limit ∧ node * nodeSize + nodeSize ≤ data.length ∧
        (data.drop (node * nodeSize)).take nodeSize = bytes := by
  unfold nodeAt offset
  simp only [Result.bind_eq_ok_iff, Word.mul_eq_ok_iff, Word.add_eq_ok_iff,
    Result.require_eq_ok_iff, Result.pure_eq_ok, Except.ok.injEq]
  constructor
  · intro h
    obtain ⟨start, ⟨-, rfl⟩, stop, ⟨hlt, rfl⟩, _, hle, hbytes⟩ := h
    exact ⟨hlt, hle, hbytes⟩
  · intro h
    obtain ⟨hlt, hle, hbytes⟩ := h
    exact ⟨_, ⟨by omega, rfl⟩, _, ⟨hlt, rfl⟩, (), hle, hbytes⟩

/-- Data that ends in front of a node or inside it is refused as long as the end of the node is a
word. -/
theorem nodeAt_of_short {data : Bytes} {node : Nat}
    (hword : node * nodeSize + nodeSize < Word.limit)
    (hshort : data.length < node * nodeSize + nodeSize) :
    nodeAt data node = refuse (.outOfBounds (node * nodeSize + nodeSize) data.length) := by
  unfold nodeAt offset
  rw [Word.mul_of_lt (by omega), Result.ok_bind, Word.add_of_lt hword, Result.ok_bind,
    Result.require_of_not (by omega), Result.refuse_bind]

/-- The end of a node is looked for before the data is. -/
theorem nodeAt_of_overflow (data : Bytes) {node : Nat}
    (hword : Word.limit ≤ node * nodeSize + nodeSize) : nodeAt data node = abort .overflow := by
  unfold nodeAt offset
  by_cases hstart : node * nodeSize < Word.limit
  · rw [Word.mul_of_lt hstart, Result.ok_bind, Word.add_of_le hword, Result.abort_bind]
  · rw [Word.mul_of_le (by omega), Result.abort_bind]

/-- A node of data made of elements, not too many for their positions to be words. -/
theorem nodeAt_concatBytes {elements : List Element} (hcount : elements.length < Word.halfLimit)
    {i : Nat} (hi : i < elements.length) :
    nodeAt (HashFamily.concatBytes elements) i = .ok elements[i].bytes := by
  have hgroups : ∀ group ∈ elements.map Element.bytes, group.length = nodeSize := by
    intro group hgroup
    obtain ⟨e, -, rfl⟩ := List.mem_map.mp hgroup
    exact e.length_bytes
  have hread := take_drop_flatten hgroups (i := i) (by rwa [List.length_map])
  rw [← List.flatMap_def, List.getElem_map] at hread
  obtain ⟨hle, htake⟩ := hread
  have hlt : i * nodeSize + nodeSize < Word.limit := by
    unfold nodeSize Word.limit
    unfold Word.halfLimit at hcount
    omega
  exact nodeAt_eq_ok_iff.mpr ⟨hlt, hle, htake⟩

end Data

end Replication
