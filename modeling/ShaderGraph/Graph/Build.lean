import ShaderGraph.Graph.Basic

/-! Building graphs: adding nodes and connecting boxes. -/

namespace ShaderGraph

inductive BuildError where
  | duplicateNode (id : NodeId)
  | unknownIndex (index : UInt64)
  | unknownType (type : NodeTypeId)
  | unknownBox (node : NodeId) (box : BoxId)
  | notAnOutput (node : NodeId) (box : BoxId)
  | notAnInput (node : NodeId) (box : BoxId)
  | alreadyConnected (node : NodeId) (box : BoxId)
  /-- The number after the largest possible one was asked for. -/
  | idOverflow
  deriving DecidableEq

def BuildError.message : BuildError → String
  | duplicateNode id => s!"node #{id} already exists"
  | unknownIndex index => s!"no node at index {index}"
  | unknownType type => s!"unknown node type {type}"
  | unknownBox node box => s!"node #{node} has no box {box}"
  | notAnOutput node box => s!"box {box} of node #{node} is not an output"
  | notAnInput node box => s!"box {box} of node #{node} is not an input"
  | alreadyConnected node box => s!"box {box} of node #{node} is already connected"
  | idOverflow => "attempt to add with overflow"

namespace Graph

/-- Appends a node; the result names its position. -/
def push (g : Graph) (node : Node) : Graph × Nat := (⟨g.nodes ++ [node]⟩, g.nodes.length)

/-- Adds a node with a given number. -/
def addNode (g : Graph) (id : NodeId) (kind : NodeKind) (params : List Param) :
    Except BuildError (Graph × Nat) :=
  if (g.find? id).isSome then .error (.duplicateNode id)
  else .ok (g.push (.ofKind id kind params))

/-- Adds a node whose kind is given by its type identifier. -/
def addNodeByType (g : Graph) (id : NodeId) (type : NodeTypeId) (params : List Param) :
    Except BuildError (Graph × Nat) :=
  match NodeKind.ofTypeId? type with
  | some kind => g.addNode id kind params
  | none => .error (.unknownType type)

/-- The largest number of a node, zero in an empty graph. -/
def maxId (g : Graph) : Nat := (g.nodes.map (·.id.toNat)).foldl max 0

/-- Adds a node with the number after the largest one. -/
def add (g : Graph) (kind : NodeKind) (params : List Param) : Except BuildError (Graph × Nat) :=
  if g.maxId < 4294967295 then .ok (g.push (.ofKind (UInt32.ofNat (g.maxId + 1)) kind params))
  else .error .idOverflow

/-- Puts a connection on the first box of a number. -/
def connectBox (id : BoxId) (c : Connection) : List Box → List Box
  | [] => []
  | b :: rest =>
    if b.id == id then { b with connection := some c } :: rest else b :: connectBox id c rest

/-- The consumer's side of a connection: an existing, unconnected input box. -/
def checkInput (n : Node) (id : BoxId) : Except BuildError Unit :=
  match n.box? id with
  | none => .error (.unknownBox n.id id)
  | some b =>
    if b.direction ≠ .input then .error (.notAnInput n.id id)
    else if b.connection.isSome then .error (.alreadyConnected n.id id)
    else .ok ()

/-- The producer's side of a connection: an existing output box. -/
def checkOutput (n : Node) (id : BoxId) : Except BuildError Unit :=
  match n.box? id with
  | none => .error (.unknownBox n.id id)
  | some b => if b.direction ≠ .output then .error (.notAnOutput n.id id) else .ok ()

/-- Feeds an input box of the node `target` from an output box of the node `source`. -/
def connect (g : Graph) (source : UInt64) (output : BoxId) (target : UInt64) (input : BoxId) :
    Except BuildError Graph :=
  match g.node? source.toNat with
  | none => .error (.unknownIndex source)
  | some producer => do
    checkOutput producer output
    match g.node? target.toNat with
    | none => .error (.unknownIndex target)
    | some consumer =>
      checkInput consumer input
      return ⟨g.nodes.modify target.toNat fun n =>
        { n with boxes := connectBox input ⟨source, output⟩ n.boxes }⟩

end Graph

end ShaderGraph
