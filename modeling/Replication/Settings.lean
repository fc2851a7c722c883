import Replication.Bytes

/-!
# Settings

The settings of an installation decide whether graphs get a table of their parents and whether a
prover verifies what it proves.
-/

namespace Replication

/-- The settings of an installation. -/
structure Settings where
  tabulateParents : Bool
  tableNodeLimit : Nat
  verifyWhileProving : Bool
deriving DecidableEq

namespace Settings

/-- The settings where nothing is configured. -/
def default : Settings := ⟨false, 2 ^ 20, false⟩

/-- Whether a graph of `nodes` nodes gets a table of its parents. -/
def tabulates (s : Settings) (nodes : Nat) : Bool := s.tabulateParents && nodes ≤ s.tableNodeLimit

end Settings

end Replication
