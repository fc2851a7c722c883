import Replication.Graph.Base
import Replication.Graph.Expander

/-!
# Graphs between layers

The label of a node depends on base parents in its own layer and on expander parents in the
layer below. A layer graph joins a base graph with an expander, if it has any expander parents,
and may hold a table of all parents. The table is made from the graph and never seen in its
answers; two graphs are the same if they are the same without their tables.
-/

namespace Replication

/-- The number of parent labels that go into a label, and the largest degree of a graph. -/
def hashedParents : Nat := 37

/-- The parents of all nodes, `degree` of them for each node, one node after the other. -/
structure ParentTable where
  degree : Nat
  entries : Array Nat
deriving DecidableEq

namespace ParentTable

/-- The number of nodes in the table. -/
def size (t : ParentTable) : Nat := t.entries.size / t.degree

def isEmpty (t : ParentTable) : Bool := t.entries.isEmpty

/-- The parents of a node, if the table has them. The end of a node's entry must be a word if its
start is one. -/
def read (t : ParentTable) (node : Nat) : Result (Option (List Nat)) :=
  let start := node * t.degree
  if start < Word.limit then do
    let stop ← Word.add start t.degree
    if stop ≤ t.entries.size then return some (t.entries.extract start stop).toList
    else return none
  else .ok none

/-- How a table is described. -/
def description (t : ParentTable) : String :=
  "ParentCache \x7b degree: " ++ toString t.degree ++ ", nodes: " ++ toString t.size ++ " \x7d"

end ParentTable

/-- The slots of all parents of a node of a base graph with an expander: base parents first. -/
def combinedSlots (base : BaseGraph) (expander : Option Expander) (node : Nat) :
    Result (List (Result Nat)) := do
  let sampled ← base.slotsOf node
  match expander with
  | some x => return sampled ++ (x.parents base.nodes node).map .ok
  | none => return sampled

/-- All parents of a node of a base graph with an expander. -/
def combinedParents (base : BaseGraph) (expander : Option Expander) (node : Nat) :
    Result (List Nat) :=
  Buffer.values (combinedSlots base expander node)

/-- The number of expander parents of a node. -/
def expansionDegreeOf : Option Expander → Nat
  | some x => x.degree
  | none => 0

/-- The table of all parents. -/
def ParentTable.tabulate (base : BaseGraph) (expander : Option Expander) : Result ParentTable := do
  let entries ← Result.forRange (combinedParents base expander) 0 base.nodes
  return ⟨base.degree + expansionDegreeOf expander, entries.flatten.toArray⟩

/-- A base graph with expander parents and perhaps a table of all parents. -/
structure LayerGraph where
  base : BaseGraph
  expander : Option Expander
  table : Option ParentTable
  degree_le : base.degree + expansionDegreeOf expander ≤ hashedParents
  layout_eq : ∀ x ∈ expander, Feistel.Layout.forSize (x.degree * base.nodes) = .ok x.layout
  table_eq : ∀ t ∈ table, ParentTable.tabulate base expander = .ok t

namespace LayerGraph

/-- The graph of a proof of replication with the given numbers of nodes, base parents and
expander parents. -/
def new (nodes baseDegree expansionDegree : Nat) (id : PorepId) : Result LayerGraph :=
  if Word.limit ≤ baseDegree + expansionDegree then abort .overflow
  else if hd : hashedParents < baseDegree + expansionDegree then
    refuse (.graph (.degreeTooLarge (baseDegree + expansionDegree) hashedParents))
  else
    match hb : BaseGraph.new nodes baseDegree id with
    | .error failure => .error failure
    | .ok base =>
      have hdegree := BaseGraph.degree_of_new hb
      if hx : expansionDegree = 0 then
        .ok {
          base, expander := none, table := none
          degree_le := by simp only [expansionDegreeOf]; omega
          layout_eq := by simp
          table_eq := by simp }
      else
        match hl : Feistel.Layout.forSize (expansionDegree * base.nodes) with
        | .error failure => .error failure
        | .ok layout =>
          .ok {
            base, table := none
            expander := some ⟨expansionDegree, permutationKeys id, layout, Nat.pos_of_ne_zero hx⟩
            degree_le := by simp only [expansionDegreeOf]; omega
            layout_eq := by
              intro x hx
              cases Option.mem_some.mp hx
              exact hl
            table_eq := by simp }

/-- The graph with a table of all parents. -/
def withTable (g : LayerGraph) : Result LayerGraph :=
  match g.table with
  | some _ => .ok g
  | none =>
    match ht : ParentTable.tabulate g.base g.expander with
    | .error failure => .error failure
    | .ok table =>
      .ok { g with
        table := some table
        table_eq := by
          intro t hx
          cases Option.mem_some.mp hx
          exact ht }

/-- Graphs are the same if they are the same without their tables. -/
def Same (g h : LayerGraph) : Prop := g.base = h.base ∧ g.expander = h.expander

instance (g h : LayerGraph) : Decidable (g.Same h) :=
  inferInstanceAs (Decidable (g.base = h.base ∧ g.expander = h.expander))

/-- The number of nodes. -/
def size (g : LayerGraph) : Nat := g.base.nodes

/-- The number of base parents of a node. -/
def baseDegree (g : LayerGraph) : Nat := g.base.degree

/-- The number of expander parents of a node. -/
def expansionDegree (g : LayerGraph) : Nat := expansionDegreeOf g.expander

/-- The number of parents of a node. -/
def degree (g : LayerGraph) : Nat := g.baseDegree + g.expansionDegree

/-- The number of bytes of a sector over the graph. -/
def sectorSize (g : LayerGraph) : Nat := g.size * nodeSize

/-- How a graph is described. -/
def identifier (g : LayerGraph) : String :=
  "stacked_graph::StackedGraph\x7bexpansion_degree: " ++ toString g.expansionDegree
    ++ " base_graph: drgraph::BucketGraph\x7bsize: " ++ toString g.size
    ++ "; degree: " ++ toString g.baseDegree ++ "\x7d \x7d"

/-- Asks for a node of the graph and for a buffer of exactly the given length. -/
def checkNode (g : LayerGraph) (node length expected : Nat) : Result Unit := do
  Result.require (node < g.size) (.outOfBounds node g.size)
  Result.require (length = expected) (.parentCount expected length)

/-- The parents of a node in the table. -/
def tabulated (g : LayerGraph) (node : Nat) : Result (Option (List Nat)) :=
  match g.table with
  | some t => t.read node
  | none => .ok none

/-- The slots of all parents of a node: base parents first, expander parents after. -/
def slotsOf (g : LayerGraph) (node : Nat) : Result (List (Result Nat)) := do
  match ← g.tabulated node with
  | some parents => return parents.map .ok
  | none => combinedSlots g.base g.expander node

/-- The slots of the base parents of a node. -/
def baseSlotsOf (g : LayerGraph) (node : Nat) : Result (List (Result Nat)) := do
  match ← g.tabulated node with
  | some parents => return (parents.take g.baseDegree).map .ok
  | none => g.base.slotsOf node

/-- The slots of the expander parents of a node. -/
def expanderSlotsOf (g : LayerGraph) (node : Nat) : Result (List (Result Nat)) := do
  match ← g.tabulated node with
  | some parents => return (parents.drop g.baseDegree).map .ok
  | none =>
    match g.expander with
    | some x => return (x.parents g.size node).map .ok
    | none => return []

/-- All parents of a node of the graph. -/
def parents (g : LayerGraph) (node : Nat) : Result (List Nat) := do
  g.checkNode node g.degree g.degree
  Buffer.values (g.slotsOf node)

/-- The base parents of a node of the graph. -/
def baseParents (g : LayerGraph) (node : Nat) : Result (List Nat) := do
  g.checkNode node g.baseDegree g.baseDegree
  Buffer.values (g.baseSlotsOf node)

/-- Writes all parents of a node to a buffer. -/
def fillParents (g : LayerGraph) (node : Nat) : OnBuffer (List Nat) Unit := fun buffer =>
  Buffer.fillWith (do
    g.checkNode node buffer.length g.degree
    g.slotsOf node) buffer

/-- Writes the base parents of a node to a buffer. -/
def fillBaseParents (g : LayerGraph) (node : Nat) : OnBuffer (List Nat) Unit := fun buffer =>
  Buffer.fillWith (do
    g.checkNode node buffer.length g.baseDegree
    g.baseSlotsOf node) buffer

/-- Writes the expander parents of a node to a buffer. -/
def fillExpanderParents (g : LayerGraph) (node : Nat) : OnBuffer (List Nat) Unit := fun buffer =>
  Buffer.fillWith (do
    g.checkNode node buffer.length g.expansionDegree
    g.expanderSlotsOf node) buffer

end LayerGraph

end Replication
