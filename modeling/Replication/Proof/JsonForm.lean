import Replication.Json.Value
import Replication.Proof.ChallengeProof
import Replication.Settings

/-!
# JSON forms

The documents of elements, proofs, plans and settings. An element is an array of thirty-two
numbers below 256; everything else is an object with the fields named here. A document is read
only if every number is in the range of its field.
-/

namespace Replication

namespace Element

/-- The document of an element. -/
def toJson (e : Element) : Json := .array (e.bytes.map fun b => .natural b.toNat)

/-- The byte of a document. -/
def byteOfJson? (document : Json) : Option UInt8 := (document.below? 256).map Nat.toUInt8

def ofJson? : Json → Option Element
  | .array items => do
    let bytes ← items.mapM byteOfJson?
    ofBytes? bytes
  | _ => none

end Element

/-- The document of a list. -/
def listToJson {α : Type} (item : α → Json) (xs : List α) : Json := .array (xs.map item)

/-- The document of a 32-bit number. -/
def jsonOfUInt32 (n : UInt32) : Json := .natural n.toNat

/-- The document of a 64-bit number. -/
def jsonOfUInt64 (n : UInt64) : Json := .natural n.toNat

def uint32OfJson? (document : Json) : Option UInt32 :=
  (document.below? (2 ^ 32)).map Nat.toUInt32

def uint64OfJson? (document : Json) : Option UInt64 :=
  (document.below? (2 ^ 64)).map Nat.toUInt64

namespace Merkle

/-- The document of a step. -/
def Step.toJson (s : Step) : Json :=
  .object [("hashes", listToJson Element.toJson s.siblings), ("index", jsonOfUInt64 s.index)]

def Step.ofJson? (document : Json) : Option Step := do
  match ← document.record? ["hashes", "index"] with
  | [siblings, index] =>
    let siblings ← siblings.listOf? Element.ofJson?
    let index ← uint64OfJson? index
    return ⟨siblings, index⟩
  | _ => none

/-- The document of a path. -/
def Path.toJson (path : Path) : Json := .object [("path", listToJson Step.toJson path)]

def Path.ofJson? (document : Json) : Option Path := do
  match ← document.record? ["path"] with
  | [steps] => steps.listOf? Step.ofJson?
  | _ => none

/-- The document of an opening. -/
def Opening.toJson (o : Opening) : Json :=
  .object [("root", o.root.toJson), ("leaf", o.leaf.toJson), ("path", o.path.toJson)]

def Opening.ofJson? (document : Json) : Option Opening := do
  match ← document.record? ["root", "leaf", "path"] with
  | [root, leaf, path] =>
    let root ← Element.ofJson? root
    let leaf ← Element.ofJson? leaf
    let path ← Path.ofJson? path
    return ⟨root, leaf, path⟩
  | _ => none

end Merkle

/-- The document of a column. -/
def Column.toJson (c : Column) : Json :=
  .object [("index", jsonOfUInt32 c.index), ("rows", listToJson Element.toJson c.rows)]

def Column.ofJson? (document : Json) : Option Column := do
  match ← document.record? ["index", "rows"] with
  | [index, rows] =>
    let index ← uint32OfJson? index
    let rows ← rows.listOf? Element.ofJson?
    return ⟨index, rows⟩
  | _ => none

/-- The document of an opened column. -/
def ColumnOpening.toJson (o : ColumnOpening) : Json :=
  .object [("column", o.column.toJson), ("inclusion_proof", o.opening.toJson)]

def ColumnOpening.ofJson? (document : Json) : Option ColumnOpening := do
  match ← document.record? ["column", "inclusion_proof"] with
  | [column, opening] =>
    let column ← Column.ofJson? column
    let opening ← Merkle.Opening.ofJson? opening
    return ⟨column, opening⟩
  | _ => none

/-- The document of the columns around a challenge. -/
def ColumnOpenings.toJson (c : ColumnOpenings) : Json :=
  .object [("c_x", c.challenged.toJson), ("drg_parents", listToJson ColumnOpening.toJson c.base),
    ("exp_parents", listToJson ColumnOpening.toJson c.expander)]

def ColumnOpenings.ofJson? (document : Json) : Option ColumnOpenings := do
  match ← document.record? ["c_x", "drg_parents", "exp_parents"] with
  | [challenged, base, expander] =>
    let challenged ← ColumnOpening.ofJson? challenged
    let base ← base.listOf? ColumnOpening.ofJson?
    let expander ← expander.listOf? ColumnOpening.ofJson?
    return ⟨challenged, base, expander⟩
  | _ => none

/-- The document of an opened label. -/
def LabelOpening.toJson (o : LabelOpening) : Json :=
  .object [("parents", listToJson Element.toJson o.parents), ("layer_index", jsonOfUInt32 o.layer),
    ("node", jsonOfUInt64 o.node)]

def LabelOpening.ofJson? (document : Json) : Option LabelOpening := do
  match ← document.record? ["parents", "layer_index", "node"] with
  | [parents, layer, node] =>
    let parents ← parents.listOf? Element.ofJson?
    let layer ← uint32OfJson? layer
    let node ← uint64OfJson? node
    return ⟨parents, layer, node⟩
  | _ => none

/-- The document of the proof of a challenge. -/
def ChallengeProof.toJson (p : ChallengeProof) : Json :=
  .object [("comm_d_proofs", p.dataOpening.toJson),
    ("comm_r_last_proof", p.replicaOpening.toJson),
    ("replica_column_proofs", p.columns.toJson),
    ("labeling_proofs", listToJson LabelOpening.toJson p.labels),
    ("encoding_proof", p.key.toJson)]

def ChallengeProof.ofJson? (document : Json) : Option ChallengeProof := do
  match ← document.record? ["comm_d_proofs", "comm_r_last_proof", "replica_column_proofs",
      "labeling_proofs", "encoding_proof"] with
  | [dataOpening, replicaOpening, columns, labels, key] =>
    let dataOpening ← Merkle.Opening.ofJson? dataOpening
    let replicaOpening ← Merkle.Opening.ofJson? replicaOpening
    let columns ← ColumnOpenings.ofJson? columns
    let labels ← labels.listOf? LabelOpening.ofJson?
    let key ← LabelOpening.ofJson? key
    return ⟨dataOpening, replicaOpening, columns, labels, key⟩
  | _ => none

/-- The document of a challenge plan. -/
def ChallengePlan.toJson (plan : ChallengePlan) : Json :=
  .object [("layers", .natural plan.layers), ("max_count", .natural plan.perPartition)]

namespace Settings

/-- The document of settings. -/
def toJson (s : Settings) : Json :=
  .object [("maximize_caching", .bool s.tabulateParents),
    ("parent_cache_max_nodes", .natural s.tableNodeLimit),
    ("verify_proofs_while_proving", .bool s.verifyWhileProving)]

/-- A setting that may be left out, but not given twice. -/
def optional? {α : Type} (members : List (String × Json)) (name : String)
    (read : Json → Option α) (default : α) : Option α :=
  match members.filter fun m => m.1 == name with
  | [] => some default
  | [m] => read m.2
  | _ => none

/-- Settings from an object that may leave out any of them, or from an array that may leave out
the last ones. -/
def ofJson? : Json → Option Settings
  | .object members => do
    let tabulate ←
      optional? members "maximize_caching" Json.truth? default.tabulateParents
    let limit ←
      optional? members "parent_cache_max_nodes" (Json.below? (2 ^ 64)) default.tableNodeLimit
    let verify ←
      optional? members "verify_proofs_while_proving" Json.truth? default.verifyWhileProving
    return ⟨tabulate, limit, verify⟩
  | .array [] => some default
  | .array [a] => do return { default with tabulateParents := ← a.truth? }
  | .array [a, b] => do
    return { default with tabulateParents := ← a.truth?, tableNodeLimit := ← b.below? (2 ^ 64) }
  | .array [a, b, c] => do return ⟨← a.truth?, ← b.below? (2 ^ 64), ← c.truth?⟩
  | _ => none

end Settings

end Replication
