import ShaderGraph.NodeKind.Layout
import ShaderGraph.Param

/-! Material graphs. Nodes stand in a list and are addressed by position; an input box names the one
output box it is fed from. Nothing here excludes malformed graphs: connections may lead nowhere,
and boxes may be missing or repeated. -/

namespace ShaderGraph

/-- The number of a node, for people. -/
abbrev NodeId := UInt32

/-- The producer that feeds an input box: the position of its node, and the box there. -/
structure Connection where
  node : UInt64
  box : BoxId
  deriving DecidableEq

structure Box where
  id : BoxId
  direction : Direction
  type : ValueType
  connection : Option Connection := none
  deriving DecidableEq

structure Node where
  id : NodeId
  kind : NodeKind
  params : List Param
  boxes : List Box
  deriving DecidableEq

namespace Node

/-- An unconnected node with the boxes of its kind. -/
def ofKind (id : NodeId) (kind : NodeKind) (params : List Param) : Node :=
  ⟨id, kind, params,
    kind.layout.map fun d => { id := d.id, direction := d.direction, type := d.type }⟩

/-- The first box of a number. -/
def box? (n : Node) (id : BoxId) : Option Box := n.boxes.find? (·.id == id)

def param? (n : Node) (i : Nat) : Option Param := n.params[i]?

end Node

structure Graph where
  nodes : List Node := []
  deriving DecidableEq

namespace Graph

def node? (g : Graph) (i : Nat) : Option Node := g.nodes[i]?

def box? (g : Graph) (i : Nat) (id : BoxId) : Option Box := (g.node? i).bind (·.box? id)

/-- The position of the first node of a number. -/
def find? (g : Graph) (id : NodeId) : Option Nat := g.nodes.findIdx? (·.id == id)

/-- The position of the first node of a kind. -/
def findKind? (g : Graph) (kind : NodeKind) : Option Nat := g.nodes.findIdx? (·.kind == kind)

/-- Whether some box is fed from the given one. -/
def hasConsumers (g : Graph) (i : Nat) (id : BoxId) : Bool :=
  g.nodes.any fun n => n.boxes.any fun b =>
    match b.connection with
    | some c => c.node.toNat == i && c.box == id
    | none => false

end Graph

end ShaderGraph
