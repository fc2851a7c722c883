import Replication.Column
import Replication.Proofs.Digests
import Replication.Proofs.Label

/-!
# All layers of a replica

Generating layers never fails. Every layer is full and labelled over the one before it, so a
label above the first layer is the hash of the labels of the base parents in its layer and of the
expander parents in the layer below. The rows of a column are the labels of its node.
-/

namespace Replication.Layers

variable {g : LayerGraph} {replicaId : Element}

/-! ## Generation -/

/-- Layers from a number on, each labelled over the one before it. -/
inductive Stacked (g : LayerGraph) (replicaId : Element) : Nat → Option Layer → List Layer → Prop
  | nil {number : Nat} {below : Option Layer} : Stacked g replicaId number below []
  | cons {number : Nat} {below : Option Layer} {labels : Layer} {rest : List Layer} :
    Label.Labelled g replicaId below number.toUInt32 labels →
      Stacked g replicaId (number + 1) (some labels) rest →
      Stacked g replicaId number below (labels :: rest)

/-- Layers that were generated are as many as asked for, each labelled over the one before. -/
theorem stacked_of_generateFrom {count number : Nat} {below : Option Layer} {list : List Layer}
    (h : generateFrom g replicaId count number below = .ok list) :
    list.length = count ∧ Stacked g replicaId number below list := by
  induction count generalizing number below list with
  | zero =>
    cases h
    exact ⟨rfl, .nil⟩
  | succ count ih =>
    obtain ⟨labels, hlabels, h⟩ := Result.bind_eq_ok h
    obtain ⟨rest, hrest, h⟩ := Result.bind_eq_ok h
    cases h
    obtain ⟨hlen, hstacked⟩ := ih hrest
    refine ⟨by rw [List.length_cons, hlen], ?_⟩
    exact .cons (Label.labelled_of_createLayer Array.size_replicate hlabels) hstacked

theorem exists_generateFrom (replicaId : Element) (count number : Nat) {below : Option Layer}
    (hbelow : Label.FullBelow g below) :
    ∃ list, generateFrom g replicaId count number below = .ok list := by
  induction count generalizing number below with
  | zero => exact ⟨[], rfl⟩
  | succ count ih =>
    have hbuffer : (Array.replicate g.size Element.zero).size = g.size := Array.size_replicate
    obtain ⟨labels, hlabels⟩ :=
      Label.exists_createLayer replicaId number.toUInt32 hbuffer hbelow
    have hfull : Label.FullBelow g (some labels) := by
      intro labels' h
      cases h
      exact (Label.labelled_of_createLayer hbuffer hlabels).size_eq
    obtain ⟨rest, hrest⟩ := ih (number + 1) hfull
    refine ⟨labels :: rest, ?_⟩
    rw [generateFrom, hlabels, Result.ok_bind, hrest]
    rfl

/-- Each layer of a stack is labelled over the layer in front of it, the first over what the stack
stands on. -/
theorem Stacked.labelled {number : Nat} {below : Option Layer} {list : List Layer}
    (h : Stacked g replicaId number below list) {i : Nat} (hi : i < list.length) :
    Label.Labelled g replicaId (if i = 0 then below else list[i - 1]?) (number + i).toUInt32
      list[i] := by
  induction h generalizing i with
  | nil => exact absurd hi (Nat.not_lt_zero i)
  | @cons number below labels rest hlabels _ ih =>
    rcases i with _ | i
    · exact hlabels
    -- behind the first layer the layer below is the one before it in the list
    · have hnumber : number + (i + 1) = number + 1 + i := by omega
      rw [if_neg (Nat.succ_ne_zero i), Nat.add_sub_cancel, hnumber]
      have hrest := ih (Nat.lt_of_succ_lt_succ hi)
      rcases i with _ | i
      · exact hrest
      · rw [if_neg (Nat.succ_ne_zero i)] at hrest
        exact hrest

/-! ## Finished layers -/

/-- The labels of a layer; none where there is no such layer. -/
def labelsOf (layers : Layers) (number : Nat) : Layer := layers.list.getD (number - 1) #[]

/-- The layer that a layer is labelled over. -/
def below (layers : Layers) (number : Nat) : Option Layer :=
  if number ≤ 1 then none else some (layers.labelsOf (number - 1))

/-- The label of a node in a layer; zero where there is no such label. -/
def entry (layers : Layers) (number node : Nat) : Element :=
  (layers.labelsOf number).getD node .zero

/-- The labels of a node in all layers. -/
def rows (layers : Layers) (node : Nat) : List Element :=
  layers.list.map (·.getD node .zero)

/-- The given number of layers, each labelled over the one before it. -/
structure Generated (g : LayerGraph) (count : Nat) (replicaId : Element) (layers : Layers) :
    Prop where
  count_eq : layers.count = count
  labelled : ∀ number, 1 ≤ number → number ≤ count →
    Label.Labelled g replicaId (layers.below number) number.toUInt32 (layers.labelsOf number)

/-- What the generation returns is the stack of layers the reading lemmas speak of. -/
theorem generated_of_generate {count : Nat} {layers : Layers}
    (h : generate g count replicaId = .ok layers) : Generated g count replicaId layers := by
  obtain ⟨list, hlist, h⟩ := Result.bind_eq_ok h
  cases h
  obtain ⟨hlen, hstacked⟩ := stacked_of_generateFrom hlist
  refine ⟨hlen, ?_⟩
  intro number hpos hle
  have hlabelled := hstacked.labelled (i := number - 1) (by omega)
  rw [Nat.add_sub_cancel' hpos] at hlabelled
  have hget : list[number - 1] = labelsOf ⟨list⟩ number :=
    (List.getElem_eq_getD #[])
  -- layers are numbered from one and listed from zero
  have hbelow : (if number - 1 = 0 then none else list[number - 1 - 1]?)
      = below ⟨list⟩ number := by
    unfold below
    by_cases hone : number ≤ 1
    · rw [if_pos hone, if_pos (by omega)]
    · rw [if_neg hone, if_neg (by omega), List.getElem?_eq_getElem (by omega)]
      exact congrArg some (List.getElem_eq_getD #[])
  rw [hget, hbelow] at hlabelled
  exact hlabelled

/-- Layers can be generated over every graph, whatever their number. -/
theorem exists_generate (g : LayerGraph) (count : Nat) (replicaId : Element) :
    ∃ layers, generate g count replicaId = .ok layers := by
  have hnone : Label.FullBelow g none := by
    intro labels h
    cases h
  obtain ⟨list, hlist⟩ := exists_generateFrom replicaId count 1 hnone
  refine ⟨⟨list⟩, ?_⟩
  rw [generate, hlist]
  rfl

/-! ## Reading finished layers -/

/-- The labels that the label of a node with the given parents is made from. -/
def parentEntries (layers : Layers) (number : Nat) (base expander : List Nat) : List Element :=
  base.map (layers.entry number) ++ expander.map (layers.entry (number - 1))

/-- The column of a node. -/
def column (layers : Layers) (node : Nat) : Column := ⟨node.toUInt32, layers.rows node⟩

theorem length_rows (layers : Layers) (node : Nat) :
    (layers.rows node).length = layers.count := List.length_map _

/-- The hashes of the columns of the first nodes, one for each, are canonical. -/
theorem hashes_of_columns {layers : Layers} {nodes : Nat} {hashes : List Element}
    (h : (List.range nodes).mapM (fun node => (layers.column node).hash) = .ok hashes) :
    hashes.length = nodes ∧ ∀ e ∈ hashes, e.IsCanonical := by
  refine ⟨?_, ?_⟩
  · rw [Result.length_of_mapM h, List.length_range]
  · exact Result.forall_mem_of_mapM h fun _ _ _ => Column.isCanonical_of_hash

namespace Generated

variable {count number node : Nat} {layers : Layers}

theorem size_labelsOf (h : Generated g count replicaId layers) (hpos : 1 ≤ number)
    (hle : number ≤ count) : (layers.labelsOf number).size = g.size :=
  (h.labelled number hpos hle).size_eq

/-- A generated layer has a label for every node. -/
theorem length_labelsOf (h : Generated g count replicaId layers) (hpos : 1 ≤ number)
    (hle : number ≤ count) : (layers.labelsOf number).toList.length = g.size := by
  rw [Array.length_toList, h.size_labelsOf hpos hle]

theorem getElem?_list (h : Generated g count replicaId layers) (hpos : 1 ≤ number)
    (hle : number ≤ count) : layers.list[number - 1]? = some (layers.labelsOf number) := by
  have hcount : layers.list.length = count := h.count_eq
  have hlt : number - 1 < layers.list.length := by omega
  rw [List.getElem?_eq_getElem hlt]
  exact congrArg some (List.getElem_eq_getD #[])

/-- Layers are numbered from one. -/
theorem layer_eq (h : Generated g count replicaId layers) (hpos : 1 ≤ number)
    (hle : number ≤ count) : layers.layer number = .ok (layers.labelsOf number) := by
  unfold layer
  rw [if_neg (by omega), h.getElem?_list hpos hle]

/-- The last layer exists exactly if there is a layer, and it is the one of the highest number. -/
theorem last_eq_ok_iff (h : Generated g count replicaId layers) {labels : Layer} :
    layers.last = .ok labels ↔ 1 ≤ count ∧ labels = layers.labelsOf count := by
  rw [last, h.count_eq]
  by_cases hpos : 1 ≤ count
  · rw [h.layer_eq hpos (Nat.le_refl count), Except.ok.injEq]
    refine ⟨?_, ?_⟩
    · intro heq
      exact ⟨hpos, heq.symm⟩
    · intro heq
      exact heq.2.symm
  · have hzero : count = 0 := by omega
    subst hzero
    simp [layer, refuse]

theorem label_eq (h : Generated g count replicaId layers) (hpos : 1 ≤ number)
    (hle : number ≤ count) (hnode : node < g.size) :
    layers.label number node = .ok (layers.entry number node) := by
  have hsize := h.size_labelsOf hpos hle
  rw [label, h.layer_eq hpos hle, Result.ok_bind, Label.lookup_of_lt (by omega)]
  rfl

/-- Every layer in the list is one of the numbered layers. -/
theorem exists_number (h : Generated g count replicaId layers) {labels : Layer}
    (hlabels : labels ∈ layers.list) :
    ∃ number, 1 ≤ number ∧ number ≤ count ∧ labels = layers.labelsOf number := by
  have hcount : layers.list.length = count := h.count_eq
  obtain ⟨i, hi, rfl⟩ := List.getElem_of_mem hlabels
  refine ⟨i + 1, by omega, by omega, ?_⟩
  exact List.getElem_eq_getD #[]

/-- The labels of generated layers are canonical. -/
theorem isCanonical_entry (h : Generated g count replicaId layers) (hpos : 1 ≤ number)
    (hle : number ≤ count) (hnode : node < g.size) : (layers.entry number node).IsCanonical := by
  obtain ⟨parents, -, hentry⟩ := (h.labelled number hpos hle).getD_eq hnode
  rw [entry, hentry]
  exact Label.isCanonical_hash _ _ _ _

/-! ### Columns -/

theorem rowsOf_eq (h : Generated g count replicaId layers) (hnode : node < g.size) :
    layers.rowsOf node = .ok (layers.rows node) := by
  apply Result.mapM_eq_ok_map
  intro labels hlabels
  obtain ⟨number, hpos, hle, rfl⟩ := h.exists_number hlabels
  apply Label.lookup_of_lt
  rw [h.size_labelsOf hpos hle]
  exact hnode

theorem isCanonical_rows (h : Generated g count replicaId layers) (hnode : node < g.size) :
    ∀ e ∈ layers.rows node, e.IsCanonical := by
  intro e he
  obtain ⟨labels, hlabels, rfl⟩ := List.mem_map.mp he
  obtain ⟨number, hpos, hle, rfl⟩ := h.exists_number hlabels
  exact h.isCanonical_entry hpos hle hnode

/-- The label of a layer in a column is the entry of that layer at the column's node. -/
theorem label_column (h : Generated g count replicaId layers) (hpos : 1 ≤ number)
    (hle : number ≤ count) :
    (layers.column node).label number = .ok (layers.entry number node) := by
  have hrow : (layers.rows node)[number - 1]? = some (layers.entry number node) := by
    rw [rows, List.getElem?_map, h.getElem?_list hpos hle]
    rfl
  have hnumber : number ≠ 0 := by omega
  simp only [Column.label, column, hnumber, hrow, if_false]

theorem toNat_toUInt32 (hnode : node < g.size) : node.toUInt32.toNat = node := by
  rw [Nat.toUInt32_eq, UInt32.toNat_ofNat']
  exact LayerGraph.mod_halfLimit hnode

/-- The column that is stored for a node is the column of its labels. -/
theorem ofLayers_eq (h : Generated g count replicaId layers) (hnode : node < g.size) :
    Column.ofLayers layers node.toUInt32 = .ok (layers.column node) := by
  unfold Column.ofLayers
  rw [toNat_toUInt32 hnode, h.rowsOf_eq hnode]
  rfl

/-- With a supported number of layers every column has a digest. -/
theorem exists_hash_column (h : Generated g count replicaId layers)
    (hcount : count ∈ Params.supportedLayers) (hnode : node < g.size) :
    ∃ digest, (layers.column node).hash = .ok digest := by
  apply Column.exists_hash
  · show (layers.rows node).length ∈ _
    rw [length_rows, h.count_eq]
    exact hcount
  · exact h.isCanonical_rows hnode

/-- Columns of a supported number of layers have hashes. -/
theorem exists_hashes_of_columns (h : Generated g count replicaId layers)
    (hcount : count ∈ Params.supportedLayers) :
    ∃ hashes, (List.range g.size).mapM (fun node => (layers.column node).hash) = .ok hashes :=
  Result.exists_mapM fun _ hnode => h.exists_hash_column hcount (List.mem_range.mp hnode)

/-! ### Labels above the first layer -/

variable {base expander : List Nat}

/-- From the second layer on a node reads its base parents in its own layer and its expander parents
in the layer below. -/
theorem parentLabels_eq (h : Generated g count replicaId layers)
    (hparents : g.Parents node base expander) (hnode : node < g.size) (hzero : node ≠ 0)
    (htwo : 2 ≤ number) (hle : number ≤ count) :
    Label.parentLabels g node (layers.labelsOf number) (some (layers.labelsOf (number - 1)))
      = .ok (layers.parentEntries number base expander) := by
  apply Label.parentLabels_eq hparents hnode hzero (h.size_labelsOf (by omega) hle)
  intro labels hlabels
  cases hlabels
  exact h.size_labelsOf (by omega) (by omega)

/-- From the second layer on an entry is the hash of the entries of the node's parents. -/
theorem entry_eq_hash (h : Generated g count replicaId layers)
    (hparents : g.Parents node base expander) (hnode : node < g.size) (hzero : node ≠ 0)
    (htwo : 2 ≤ number) (hle : number ≤ count) :
    layers.entry number node = Label.hash replicaId number.toUInt32 node.toUInt64
      (layers.parentEntries number base expander) := by
  obtain ⟨parents, hlabels, hentry⟩ := (h.labelled number (by omega) hle).getD_eq hnode
  rw [below, if_neg (by omega), h.parentLabels_eq hparents hnode hzero htwo hle] at hlabels
  cases hlabels
  exact hentry

end Generated

end Replication.Layers
