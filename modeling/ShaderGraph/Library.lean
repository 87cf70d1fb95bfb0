import ShaderGraph.Graph.Basic

/-! Material functions, and the libraries they are loaded from. -/

namespace ShaderGraph

/-- A graph that can be called. Its inputs and outputs are named by node number. -/
structure MaterialFunction where
  id : AssetId
  graph : Graph
  inputs : List NodeId
  outputs : List NodeId
  deriving DecidableEq

inductive LoadError where
  | notFound (id : AssetId)
  | failed (id : AssetId) (reason : String)
  deriving DecidableEq

def LoadError.message : LoadError → String
  | notFound id => s!"function {id} not found"
  | failed id reason => s!"function {id} failed to load: {reason}"

namespace Library

/-- A function, or the reason why it cannot be loaded. -/
inductive Entry where
  | loaded (function : MaterialFunction)
  | broken (id : AssetId) (reason : String)
  deriving DecidableEq

def Entry.id : Entry → AssetId
  | loaded function => function.id
  | broken id _ => id

end Library

/-- The entries of a library. Of several for one identifier, the first is the one that counts. -/
structure Library where
  entries : List Library.Entry := []
  deriving DecidableEq

namespace Library

/-- Adds an entry in the place of all earlier ones for the same identifier. -/
def insert (l : Library) (e : Entry) : Library := ⟨l.entries.filter (·.id != e.id) ++ [e]⟩

def size (l : Library) : Nat := l.entries.length

def load (l : Library) (id : AssetId) : Except LoadError MaterialFunction :=
  match l.entries.find? (·.id == id) with
  | some (.loaded function) => .ok function
  | some (.broken id reason) => .error (.failed id reason)
  | none => .error (.notFound id)

end Library

/-- Where functions are loaded from: each load has a library of its own, and all loads after the
last library go to that one. -/
structure Resolver where
  libraries : List Library

namespace Resolver

/-- The library of a load, given how many came before it. -/
def library (r : Resolver) (earlier : Nat) : Library :=
  (r.libraries[earlier]?.or r.libraries.getLast?).getD {}

def load (r : Resolver) (earlier : Nat) (id : AssetId) : Except LoadError MaterialFunction :=
  (r.library earlier).load id

end Resolver

end ShaderGraph
