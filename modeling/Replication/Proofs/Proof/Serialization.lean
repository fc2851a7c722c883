import Replication.Proof.BinaryForm
import Replication.Proof.JsonForm
import Replication.Proofs.Binary
import Replication.Proofs.Json.Text

/-!
# Serialized proofs lose nothing

A proof is read back from its JSON text, whatever its lists and elements are. The binary form of
a list of proofs has neither names nor separators; it is read back nevertheless, so that no two
lists have one form and no form is the start of another: `serialization_lossless`. All that is asked
of a proof is that it could be held in memory: the length of every list is a word (`Counted`).
-/

namespace Replication

/-! ## JSON documents -/

namespace Json

/-- What is read from a list item by item. -/
theorem mapM_map_eq_some {α β γ : Type} {read : β → Option γ} {write : α → β} {value : α → γ}
    {xs : List α} (h : ∀ x ∈ xs, read (write x) = some (value x)) :
    (xs.map write).mapM read = some (xs.map value) := by
  induction xs with
  | nil => rfl
  | cons x xs ih =>
    rw [List.forall_mem_cons] at h
    rw [List.map_cons, List.mapM_cons, h.1, ih h.2]
    rfl

/-- Where no two members have one name, only one has the name of a member. -/
theorem filter_name_eq {members : List (String × Json)} (h : (members.map Prod.fst).Nodup)
    {member : String × Json} (hmember : member ∈ members) :
    (members.filter fun m => m.1 == member.1) = [member] := by
  induction members with
  | nil => simp at hmember
  | cons first rest ih =>
    rw [List.map_cons, List.nodup_cons] at h
    rw [List.filter_cons]
    rcases List.mem_cons.mp hmember with rfl | hrest
    · have hnone : (rest.filter fun m => m.1 == member.1) = [] := by
        rw [List.filter_eq_nil_iff]
        intro m hm heq
        rw [beq_iff_eq] at heq
        exact h.1 (heq ▸ List.mem_map_of_mem hm)
      rw [if_pos (beq_self_eq_true _), hnone]
    · have hne : ¬ (first.1 == member.1) = true := by
        rw [beq_iff_eq]
        intro heq
        exact h.1 (heq ▸ List.mem_map_of_mem hrest)
      rw [if_neg hne]
      exact ih h.2 hrest

/-- The fields of a record are read from an object with just these members. -/
theorem record?_object {members : List (String × Json)} {names : List String}
    (hnames : members.map Prod.fst = names) (hnodup : names.Nodup) :
    (object members).record? names = some (members.map Prod.snd) := by
  subst hnames
  have hone : ∀ m ∈ members, member? members m.1 = some m.2 := by
    intro m hm
    rw [member?, filter_name_eq hnodup hm]
  exact mapM_map_eq_some hone

end Json

section Documents

variable {α : Type} {read : Json → Option α} {write : α → Json}

/-- A list whose items are read back is read back. -/
@[simp] theorem listOf?_listToJson (h : ∀ x, read (write x) = some x) (xs : List α) :
    (listToJson write xs).listOf? read = some xs := by
  show (xs.map write).mapM read = some xs
  rw [Json.mapM_map_eq_some fun x _ => h x, List.map_id']

@[simp] theorem uint32OfJson?_jsonOfUInt32 (n : UInt32) :
    uint32OfJson? (jsonOfUInt32 n) = some n := by
  simp [uint32OfJson?, jsonOfUInt32, Json.below?, n.toNat_lt]

@[simp] theorem uint64OfJson?_jsonOfUInt64 (n : UInt64) :
    uint64OfJson? (jsonOfUInt64 n) = some n := by
  simp [uint64OfJson?, jsonOfUInt64, Json.below?, n.toNat_lt]

theorem plain_listToJson (h : ∀ x, (write x).Plain) (xs : List α) :
    (listToJson write xs).Plain :=
  .array (List.forall_mem_map.mpr fun x _ => h x)

theorem plain_jsonOfUInt32 (n : UInt32) : (jsonOfUInt32 n).Plain :=
  .natural (Nat.lt_trans n.toNat_lt (by decide))

theorem plain_jsonOfUInt64 (n : UInt64) : (jsonOfUInt64 n).Plain := .natural n.toNat_lt

end Documents

namespace Element

/-- The JSON form of an element is read back. -/
@[simp] theorem ofJson?_toJson (e : Element) : ofJson? e.toJson = some e := by
  have hbyte : ∀ b : UInt8, byteOfJson? (.natural b.toNat) = some b := by
    intro b
    simp [byteOfJson?, Json.below?, b.toNat_lt]
  show (e.bytes.map fun b => Json.natural b.toNat).mapM byteOfJson? >>= ofBytes? = some e
  rw [Json.mapM_map_eq_some fun b _ => hbyte b, List.map_id']
  exact ofBytes?_eq_some_iff.mpr rfl

theorem plain_toJson (e : Element) : e.toJson.Plain :=
  .array (List.forall_mem_map.mpr fun b _ => .natural (Nat.lt_trans b.toNat_lt (by decide)))

end Element

namespace Merkle

@[simp] theorem Step.ofJson?_toJson (s : Step) : Step.ofJson? s.toJson = some s := by
  rw [Step.ofJson?, Step.toJson, Json.record?_object]
  · simp
  · rfl
  · decide

@[simp] theorem Path.ofJson?_toJson (path : Path) : Path.ofJson? path.toJson = some path := by
  rw [Path.ofJson?, Path.toJson, Json.record?_object]
  · simp
  · rfl
  · decide

@[simp] theorem Opening.ofJson?_toJson (o : Opening) : Opening.ofJson? o.toJson = some o := by
  rw [Opening.ofJson?, Opening.toJson, Json.record?_object]
  · simp
  · rfl
  · decide

end Merkle

@[simp] theorem Column.ofJson?_toJson (c : Column) : Column.ofJson? c.toJson = some c := by
  rw [Column.ofJson?, Column.toJson, Json.record?_object]
  · simp
  · rfl
  · decide

@[simp] theorem ColumnOpening.ofJson?_toJson (o : ColumnOpening) :
    ColumnOpening.ofJson? o.toJson = some o := by
  rw [ColumnOpening.ofJson?, ColumnOpening.toJson, Json.record?_object]
  · simp
  · rfl
  · decide

@[simp] theorem ColumnOpenings.ofJson?_toJson (c : ColumnOpenings) :
    ColumnOpenings.ofJson? c.toJson = some c := by
  rw [ColumnOpenings.ofJson?, ColumnOpenings.toJson, Json.record?_object]
  · simp
  · rfl
  · decide

@[simp] theorem LabelOpening.ofJson?_toJson (o : LabelOpening) :
    LabelOpening.ofJson? o.toJson = some o := by
  rw [LabelOpening.ofJson?, LabelOpening.toJson, Json.record?_object]
  · simp
  · rfl
  · decide

/-- The JSON form of a challenge proof is read back. -/
@[simp] theorem ChallengeProof.ofJson?_toJson (p : ChallengeProof) :
    ChallengeProof.ofJson? p.toJson = some p := by
  rw [ChallengeProof.ofJson?, ChallengeProof.toJson, Json.record?_object]
  · simp
  · rfl
  · decide

/-! ## The text of a proof -/

/-- A record has a text if each of its fields has. -/
theorem Merkle.Step.plain_toJson (s : Step) : s.toJson.Plain := by
  apply Json.Plain.object
  simp [plain_listToJson Element.plain_toJson, plain_jsonOfUInt64]

theorem Merkle.Path.plain_toJson (path : Path) : path.toJson.Plain := by
  apply Json.Plain.object
  simp [plain_listToJson Step.plain_toJson]

theorem Merkle.Opening.plain_toJson (o : Opening) : o.toJson.Plain := by
  apply Json.Plain.object
  simp [Element.plain_toJson, Path.plain_toJson]

theorem Column.plain_toJson (c : Column) : c.toJson.Plain := by
  apply Json.Plain.object
  simp [plain_listToJson Element.plain_toJson, plain_jsonOfUInt32]

theorem ColumnOpening.plain_toJson (o : ColumnOpening) : o.toJson.Plain := by
  apply Json.Plain.object
  simp [Column.plain_toJson, Merkle.Opening.plain_toJson]

theorem ColumnOpenings.plain_toJson (c : ColumnOpenings) : c.toJson.Plain := by
  apply Json.Plain.object
  simp [ColumnOpening.plain_toJson, plain_listToJson ColumnOpening.plain_toJson]

theorem LabelOpening.plain_toJson (o : LabelOpening) : o.toJson.Plain := by
  apply Json.Plain.object
  simp [plain_listToJson Element.plain_toJson, plain_jsonOfUInt32, plain_jsonOfUInt64]

/-- The JSON form of a proof is plain, so that its text can be read. -/
theorem ChallengeProof.plain_toJson (p : ChallengeProof) : p.toJson.Plain := by
  apply Json.Plain.object
  simp [Merkle.Opening.plain_toJson, ColumnOpenings.plain_toJson, LabelOpening.plain_toJson,
    plain_listToJson LabelOpening.plain_toJson]

/-! ## Binary forms -/

open Binary

namespace Merkle

/-- The number of siblings is a word. -/
def Step.Counted (s : Step) : Prop := s.siblings.length < Word.limit

/-- The numbers of steps and of their siblings are words. -/
def Opening.Counted (o : Opening) : Prop := CountedList Step.Counted o.path

/-- A step with a counted list of siblings is restored. -/
theorem Step.restores {s : Step} (h : s.Counted) : Restores read toBytes s := by
  intro rest
  have hsiblings := (restores_elements h).read_eq
  have hindex := (restores_uint64 s.index).read_eq
  simp [read, toBytes, hsiblings, hindex]

theorem Opening.restores {o : Opening} (h : o.Counted) : Restores read toBytes o := by
  intro rest
  have helement := fun e => (restores_element e).read_eq
  have hpath := (restores_list (fun _ => Step.restores) h).read_eq
  simp [read, toBytes, helement, hpath]

end Merkle

/-- The number of labels is a word. -/
def Column.Counted (c : Column) : Prop := c.rows.length < Word.limit

theorem Column.restores {c : Column} (h : c.Counted) : Restores read toBytes c := by
  intro rest
  have hindex := (restores_uint32 c.index).read_eq
  have hrows := (restores_elements h).read_eq
  simp [read, toBytes, hindex, hrows]

/-- The lists of the column and of its opening are as long as words count. -/
def ColumnOpening.Counted (o : ColumnOpening) : Prop := o.column.Counted ∧ o.opening.Counted

theorem ColumnOpening.restores {o : ColumnOpening} (h : o.Counted) :
    Restores read toBytes o := by
  intro rest
  have hcolumn := (Column.restores h.1).read_eq
  have hopening := (Merkle.Opening.restores h.2).read_eq
  simp [read, toBytes, hcolumn, hopening]

/-- The lists of all opened columns are as long as words count, and so are the lists of columns. -/
structure ColumnOpenings.Counted (c : ColumnOpenings) : Prop where
  challenged : c.challenged.Counted
  base : CountedList ColumnOpening.Counted c.base
  expander : CountedList ColumnOpening.Counted c.expander

theorem ColumnOpenings.restores {c : ColumnOpenings} (h : c.Counted) :
    Restores read toBytes c := by
  intro rest
  have hchallenged := (ColumnOpening.restores h.challenged).read_eq
  have hbase := (restores_list (fun _ => ColumnOpening.restores) h.base).read_eq
  have hexpander := (restores_list (fun _ => ColumnOpening.restores) h.expander).read_eq
  simp [read, toBytes, hchallenged, hbase, hexpander]

/-- The number of parents is a word. -/
def LabelOpening.Counted (o : LabelOpening) : Prop := o.parents.length < Word.limit

theorem LabelOpening.restores {o : LabelOpening} (h : o.Counted) :
    Restores read toBytes o := by
  intro rest
  have hparents := (restores_elements h).read_eq
  have hlayer := (restores_uint32 o.layer).read_eq
  have hnode := (restores_uint64 o.node).read_eq
  simp [read, toBytes, hparents, hlayer, hnode]

namespace ChallengeProof

/-- Every list of a proof is as long as words count. -/
structure Counted (p : ChallengeProof) : Prop where
  dataOpening : p.dataOpening.Counted
  replicaOpening : p.replicaOpening.Counted
  columns : p.columns.Counted
  labels : CountedList LabelOpening.Counted p.labels
  key : p.key.Counted

/-- A proof whose lists are counted is restored from its binary form. -/
theorem restores {p : ChallengeProof} (h : p.Counted) : Restores read toBytes p := by
  intro rest
  have hdata := (Merkle.Opening.restores h.dataOpening).read_eq
  have hreplica := (Merkle.Opening.restores h.replicaOpening).read_eq
  have hcolumns := (ColumnOpenings.restores h.columns).read_eq
  have hlabels := (restores_list (fun _ => LabelOpening.restores) h.labels).read_eq
  have hkey := (LabelOpening.restores h.key).read_eq
  simp [read, toBytes, hdata, hreplica, hcolumns, hlabels, hkey]

/-- A counted list of proofs is restored from its binary form. -/
theorem restores_listToBytes {proofs : List ChallengeProof} (h : CountedList Counted proofs) :
    Restores (readList read) listToBytes proofs :=
  restores_list (fun _ => restores) h

/-- The JSON text of a proof is read as this proof, the binary form of a list of proofs as this
list, and the binary form of one list starts with that of another only if they are the same. -/
theorem serialization_lossless :
    (∀ p : ChallengeProof, (Json.parse? p.toJson.render).bind ofJson? = some p) ∧
    ∀ proofs proofs' : List ChallengeProof, CountedList Counted proofs →
      CountedList Counted proofs' →
        listOfBytes? (listToBytes proofs) = some proofs ∧
        (listToBytes proofs <+: listToBytes proofs' ↔ proofs = proofs') := by
  refine ⟨?_, ?_⟩
  · intro p
    rw [Json.parse?_render p.plain_toJson]
    exact ofJson?_toJson p
  · intro proofs proofs' h h'
    have hread := (restores_listToBytes h).read_eq []
    rw [List.append_nil] at hread
    refine ⟨?_, ?_, ?_⟩
    · rw [listOfBytes?, hread]
      rfl
    · exact eq_of_isPrefix (restores_listToBytes h) (restores_listToBytes h')
    · rintro rfl
      exact List.prefix_rfl

/-- Thirty-two bytes of ones: no canonical element. -/
def onesElement : Element := ⟨List.replicate 32 0xff, List.length_replicate⟩

/-- An opening of one step, at the largest place. -/
def onesOpening : Merkle.Opening :=
  ⟨onesElement, onesElement, [⟨[onesElement], 0xffffffffffffffff⟩]⟩

/-- A column at the largest position. -/
def onesColumn : ColumnOpening := ⟨⟨0xffffffff, [onesElement, onesElement]⟩, onesOpening⟩

/-- A label in the largest layer of the largest node. -/
def onesLabel : LabelOpening := ⟨[onesElement], 0xffffffff, 0xffffffffffffffff⟩

/-- A proof with the given columns of parents. -/
def onesProof (base expander : List ColumnOpening) : ChallengeProof :=
  ⟨onesOpening, onesOpening, ⟨onesColumn, base, expander⟩, [onesLabel], onesLabel⟩

theorem counted_onesOpening : onesOpening.Counted :=
  countedList_singleton (by simp [Merkle.Step.Counted, Word.limit])

theorem counted_onesColumn : onesColumn.Counted :=
  ⟨by simp [Column.Counted, onesColumn, Word.limit], counted_onesOpening⟩

theorem counted_onesLabel : onesLabel.Counted := by
  simp [LabelOpening.Counted, onesLabel, Word.limit]

theorem counted_onesProof {base expander : List ColumnOpening}
    (hbase : CountedList ColumnOpening.Counted base)
    (hexpander : CountedList ColumnOpening.Counted expander) :
    (onesProof base expander).Counted where
  dataOpening := counted_onesOpening
  replicaOpening := counted_onesOpening
  columns := ⟨counted_onesColumn, hbase, hexpander⟩
  labels := countedList_singleton counted_onesLabel
  key := counted_onesLabel

/-- A column that is moved from the end of one list to the start of the next changes the bytes. -/
theorem serialization_lossless_moved_column :
    (Json.parse? (onesProof [onesColumn] []).toJson.render).bind ofJson?
      = some (onesProof [onesColumn] []) ∧
    ¬ listToBytes [onesProof [onesColumn] []] <+: listToBytes [onesProof [] [onesColumn]] := by
  obtain ⟨htext, hbytes⟩ := serialization_lossless
  have hnone := countedList_nil ColumnOpening.Counted
  have hone := countedList_singleton counted_onesColumn
  have hleft := countedList_singleton (counted_onesProof hone hnone)
  have hright := countedList_singleton (counted_onesProof hnone hone)
  refine ⟨htext _, ?_⟩
  intro hstart
  have heq := (hbytes _ _ hleft hright).2.mp hstart
  simp [onesProof] at heq

end ChallengeProof

end Replication
