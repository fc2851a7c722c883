import Replication.Replica.Sector
import Replication.Proofs.Elements

/-!
# Replacing the nodes of data

Nodes are replaced in place, each under its own key. On data of canonical nodes the walk over the
bytes is a walk over the nodes, described by the relation `Replaced`. Decoding relates the same
three lists as encoding, read the other way.
-/

namespace Replication.Replica

variable {f : Element → Element → Result Element} {keys nodes replaced : List Element}

/-- Every node is replaced by what its key makes of it. -/
inductive Replaced (f : Element → Element → Result Element) :
    List Element → List Element → List Element → Prop
  | nil : Replaced f [] [] []
  | cons {key node new : Element} {keys nodes replaced : List Element} :
    f key node = .ok new → Replaced f keys nodes replaced →
      Replaced f (key :: keys) (node :: nodes) (new :: replaced)

namespace Replaced

theorem length_replaced (h : Replaced f keys nodes replaced) :
    replaced.length = keys.length := by
  induction h with
  | nil => rfl
  | cons _ _ ih => rw [List.length_cons, List.length_cons, ih]

/-- A node is replaced by what its own key makes of it. -/
theorem getElem (h : Replaced f keys nodes replaced) {i : Nat} (hkey : i < keys.length)
    (hnode : i < nodes.length) (hnew : i < replaced.length) :
    f keys[i] nodes[i] = .ok replaced[i] := by
  induction h generalizing i with
  | nil => exact absurd hkey (Nat.not_lt_zero i)
  | cons hhead _ ih =>
    rcases i with _ | i
    · exact hhead
    · exact ih (Nat.lt_of_succ_lt_succ hkey) (Nat.lt_of_succ_lt_succ hnode)
        (Nat.lt_of_succ_lt_succ hnew)

/-- Lists that match entry by entry are replaced as a whole. -/
theorem of_getElem (hkeys : keys.length = nodes.length) (hreplaced : replaced.length = nodes.length)
    (h : ∀ i (hkey : i < keys.length) (hnode : i < nodes.length) (hnew : i < replaced.length),
      f keys[i] nodes[i] = .ok replaced[i]) : Replaced f keys nodes replaced := by
  induction nodes generalizing keys replaced with
  | nil =>
    rw [List.length_nil] at hkeys hreplaced
    rw [List.length_eq_zero_iff.mp hkeys, List.length_eq_zero_iff.mp hreplaced]
    exact .nil
  | cons node nodes ih =>
    match keys, replaced with
    | key :: keys, new :: replaced =>
      refine .cons (h 0 (Nat.zero_lt_succ _) (Nat.zero_lt_succ _) (Nat.zero_lt_succ _)) ?_
      apply ih (Nat.succ.inj hkeys) (Nat.succ.inj hreplaced)
      intro i hkey hnode hnew
      exact h (i + 1) (Nat.succ_lt_succ hkey) (Nat.succ_lt_succ hnode) (Nat.succ_lt_succ hnew)

/-- What every replaced node has, the replaced list has. -/
theorem forall_mem {p : Element → Prop} (h : Replaced f keys nodes replaced)
    (hf : ∀ key node new, f key node = .ok new → p new) : ∀ new ∈ replaced, p new := by
  induction h with
  | nil => simp
  | cons hhead _ ih =>
    rw [List.forall_mem_cons]
    exact ⟨hf _ _ _ hhead, ih⟩

/-- A replacement can be read backwards where each single one can. -/
theorem symm {g : Element → Element → Result Element} (h : Replaced f keys nodes replaced)
    (hundo : ∀ key node new, f key node = .ok new → g key new = .ok node) :
    Replaced g keys replaced nodes := by
  induction h with
  | nil => exact .nil
  | cons hhead _ ih => exact .cons (hundo _ _ _ hhead) ih

/-- Nodes that were encoded are decoded with the same keys. -/
theorem decode_of_encode (h : Replaced Encoding.encode keys nodes replaced) :
    Replaced Encoding.decode keys replaced nodes :=
  h.symm fun _ _ _ => Encoding.encode_eq_ok_iff_decode.mp

theorem encode_of_decode (h : Replaced Encoding.decode keys nodes replaced) :
    Replaced Encoding.encode keys replaced nodes :=
  h.symm fun _ _ _ => Encoding.encode_eq_ok_iff_decode.mpr

end Replaced

theorem exists_replaced (hf : ∀ key ∈ keys, ∀ node ∈ nodes, ∃ new, f key node = .ok new)
    (hlen : keys.length = nodes.length) : ∃ replaced, Replaced f keys nodes replaced := by
  induction keys generalizing nodes with
  | nil =>
    rw [List.length_nil] at hlen
    rw [List.length_eq_zero_iff.mp hlen.symm]
    exact ⟨[], .nil⟩
  | cons key keys ih =>
    match nodes with
    | [] => simp at hlen
    | node :: nodes =>
      obtain ⟨new, hnew⟩ := hf key List.mem_cons_self node List.mem_cons_self
      obtain ⟨rest, hrest⟩ := ih
        (fun k hk n hn => hf k (List.mem_cons_of_mem key hk) n (List.mem_cons_of_mem node hn))
        (Nat.succ.inj hlen)
      exact ⟨new :: rest, .cons hnew hrest⟩

/-! ## The walk over the bytes -/

/-- A canonical node in front of the data is read whole and replaced first. -/
theorem replaceNodes_append {key node : Element} (hnode : node.IsCanonical) (rest : Bytes) :
    replaceNodes f (key :: keys) (node.bytes ++ rest)
      = match f key node with
        | .error failure => (.error failure, node.bytes ++ rest)
        | .ok new =>
          ((replaceNodes f keys rest).1, new.bytes ++ (replaceNodes f keys rest).2) := by
  have hlen : node.bytes.length = nodeSize := node.length_bytes
  obtain ⟨b, bytes, hbytes⟩ := List.exists_cons_of_length_pos
    (show 0 < (node.bytes ++ rest).length by
      rw [List.length_append, hlen]
      exact Nat.lt_of_lt_of_le (by decide) (Nat.le_add_right _ _))
  have htake : (node.bytes ++ rest).take nodeSize = node.bytes := by
    rw [← hlen, List.take_left]
  have hdrop : (node.bytes ++ rest).drop nodeSize = rest := by
    rw [← hlen, List.drop_left]
  have hread : Element.ofCanonicalBytes node.bytes = .ok node :=
    Element.ofCanonicalBytes_eq_ok_iff.mpr ⟨rfl, hnode⟩
  -- the walk asks for a first byte before it cuts off a node
  rw [hbytes] at htake hdrop
  have hreplace : (Element.ofCanonicalBytes ((b :: bytes).take nodeSize) >>= f key)
      = f key node := by
    rw [htake, hread, Result.ok_bind]
  cases hnew : f key node with
  | error failure => simp only [hbytes, replaceNodes, hreplace, hnew]
  | ok new => simp only [hbytes, replaceNodes, hreplace, hdrop, hnew]

/-- On canonical nodes the walk succeeds exactly if every node can be replaced. -/
theorem replaceNodes_eq_ok_iff (hcanonical : ∀ e ∈ nodes, e.IsCanonical)
    (hlen : keys.length = nodes.length) {result : Bytes} :
    replaceNodes f keys (HashFamily.concatBytes nodes) = (.ok (), result) ↔
      ∃ replaced, Replaced f keys nodes replaced ∧
        HashFamily.concatBytes replaced = result := by
  induction keys generalizing nodes result with
  | nil =>
    rw [List.length_nil] at hlen
    rw [List.length_eq_zero_iff.mp hlen.symm]
    refine ⟨?_, ?_⟩
    · intro h
      exact ⟨[], .nil, congrArg Prod.snd h⟩
    · intro h
      obtain ⟨replaced, hreplaced, rfl⟩ := h
      cases hreplaced
      rfl
  | cons key keys ih =>
    match nodes with
    | [] => simp at hlen
    | node :: nodes =>
      rw [List.forall_mem_cons] at hcanonical
      have hrest : ∀ result, replaceNodes f keys (HashFamily.concatBytes nodes)
            = (.ok (), result) ↔ ∃ replaced, Replaced f keys nodes replaced ∧
          HashFamily.concatBytes replaced = result :=
        fun _ => ih hcanonical.2 (Nat.succ.inj hlen)
      rw [HashFamily.concatBytes_cons, replaceNodes_append hcanonical.1]
      refine ⟨?_, ?_⟩
      · intro h
        -- a key that fails ends the walk, so the first node has its replacement
        rcases hnew : f key node with failure | new
        · rw [hnew] at h
          cases h
        · rw [hnew] at h
          injection h with houtcome hresult
          obtain ⟨replaced, hreplaced, hconcat⟩ := (hrest _).mp (Prod.ext houtcome rfl)
          refine ⟨new :: replaced, .cons hnew hreplaced, ?_⟩
          rw [HashFamily.concatBytes_cons, hconcat, hresult]
      · intro h
        obtain ⟨replaced, hreplaced, rfl⟩ := h
        rcases hreplaced with _ | ⟨hnew, hreplaced⟩
        rw [hnew]
        show ((replaceNodes f keys _).1, _ ++ (replaceNodes f keys _).2) = _
        rw [(hrest _).mpr ⟨_, hreplaced, rfl⟩]
        rfl

end Replication.Replica
