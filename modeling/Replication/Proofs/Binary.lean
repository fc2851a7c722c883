import Replication.Binary
import Replication.Proofs.Elements

/-!
# Binary forms are read back

A value is restored from its binary form if reading the form, with anything behind it, gives the
value and what is behind it (`Restores`). Numbers and elements always are; a list is, if its items
are and its length is a word (`CountedList`). Forms that are restored are told apart, and none of
them is the start of another: `eq_of_isPrefix`.
-/

namespace Replication.Binary

variable {α : Type}

/-- What is written for a value is read as the value, whatever follows. -/
def Restores (read : Reader α) (write : α → Bytes) (x : α) : Prop :=
  ∀ rest, read (write x ++ rest) = some (x, rest)

theorem Restores.read_eq {read : Reader α} {write : α → Bytes} {x : α}
    (h : Restores read write x) (rest : Bytes) : read (write x ++ rest) = some (x, rest) :=
  h rest

/-- An encoding that begins another one is the encoding of the same value. -/
theorem eq_of_isPrefix {read : Reader α} {write : α → Bytes} {x y : α}
    (hx : Restores read write x) (hy : Restores read write y) (h : write x <+: write y) :
    x = y := by
  obtain ⟨rest, hrest⟩ := h
  have hread := hy []
  rw [List.append_nil, ← hrest, hx rest] at hread
  cases hread
  rfl

/-- Reading as many bytes as a string has takes the string and leaves the rest. -/
theorem readBytes_append {bytes : Bytes} {count : Nat} (h : bytes.length = count) (rest : Bytes) :
    readBytes count (bytes ++ rest) = some (bytes, rest) := by
  subst h
  unfold readBytes
  rw [if_pos (by simp), List.take_left, List.drop_left]

/-! ## Numbers and elements -/

/-- A number that fits its width is read back from its little-endian bytes. -/
theorem readNat_natLE {width n : Nat} (h : n < 256 ^ width) (rest : Bytes) :
    readNat width (Bytes.natLE width n ++ rest) = some (n, rest) := by
  unfold readNat
  rw [readBytes_append (Bytes.length_natLE width n)]
  show some (Bytes.toNatLE (Bytes.natLE width n), rest) = some (n, rest)
  rw [Bytes.toNatLE_natLE, Nat.mod_eq_of_lt h]

theorem restores_uint32 (n : UInt32) : Restores readUInt32 ofUInt32 n := by
  intro rest
  unfold readUInt32 ofUInt32
  rw [readNat_natLE n.toNat_lt]
  show some (n.toNat.toUInt32, rest) = some (n, rest)
  rw [Nat.toUInt32_eq, UInt32.ofNat_toNat]

theorem restores_uint64 (n : UInt64) : Restores readUInt64 ofUInt64 n := by
  intro rest
  unfold readUInt64 ofUInt64
  rw [readNat_natLE n.toNat_lt]
  show some (n.toNat.toUInt64, rest) = some (n, rest)
  rw [Nat.toUInt64_eq, UInt64.ofNat_toNat]

theorem restores_element (e : Element) : Restores readElement Element.bytes e := by
  intro rest
  unfold readElement
  rw [readBytes_append e.length_bytes]
  show (Element.ofBytes? e.bytes >>= fun e => some (e, rest)) = some (e, rest)
  rw [Element.ofBytes?_eq_some_iff.mpr rfl]
  rfl

/-! ## Lists -/

/-- The length of a list is a word, and its items are as said. -/
def CountedList (counted : α → Prop) (xs : List α) : Prop :=
  xs.length < Word.limit ∧ ∀ x ∈ xs, counted x

theorem countedList_nil (counted : α → Prop) : CountedList counted [] :=
  ⟨by simp [Word.limit], by simp⟩

theorem countedList_singleton {counted : α → Prop} {x : α} (h : counted x) :
    CountedList counted [x] :=
  ⟨by simp [Word.limit], by simpa using h⟩

section Lists

variable {read : Reader α} {write : α → Bytes} {counted : α → Prop}

/-- Items whose encodings are read back one by one are read back as a run. -/
theorem readItems_flatMap {xs : List α} (h : ∀ x ∈ xs, Restores read write x) (rest : Bytes) :
    readItems read xs.length (xs.flatMap write ++ rest) = some (xs, rest) := by
  induction xs with
  | nil => rfl
  | cons x xs ih =>
    rw [List.forall_mem_cons] at h
    rw [List.flatMap_cons, List.append_assoc, List.length_cons, readItems, h.1]
    simp [ih h.2]

/-- The length of a list is read first; in the bytes for it a longer list would look like a shorter
one. -/
theorem restores_list (hread : ∀ x, counted x → Restores read write x) {xs : List α}
    (h : CountedList counted xs) : Restores (readList read) (ofList write) xs := by
  intro rest
  unfold readList ofList
  rw [List.append_assoc, readNat_natLE h.1]
  exact readItems_flatMap (fun x hx => hread x (h.2 x hx)) rest

/-- A list of elements is read back when its length fits a word. -/
theorem restores_elements {elements : List Element} (h : elements.length < Word.limit) :
    Restores (readList readElement) (ofList Element.bytes) elements :=
  restores_list (fun e (_ : True) => restores_element e) ⟨h, by simp⟩

end Lists

end Replication.Binary
