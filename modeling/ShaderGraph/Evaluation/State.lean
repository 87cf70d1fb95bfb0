import ShaderGraph.Evaluation.Context
import ShaderGraph.Evaluation.Recipe
import ShaderGraph.Material.Domain
import ShaderGraph.Shader.Writer

/-! The state of an evaluation, and the steps that change it. -/

namespace ShaderGraph

/-- What stays the same throughout an evaluation. -/
structure Settings where
  domain : Domain
  /-- How many interpolant slots there are. -/
  slotLimit : Nat
  /-- Whether comments are written. -/
  comments : Bool
  resolver : Resolver

/-- The call for which a graph was made. -/
structure Origin where
  caller : Nat
  site : Nat
  function : MaterialFunction
  /-- The call nodes that lead here from the material graph. -/
  callPath : List NodeId
  deriving DecidableEq

/-- A graph taking part in an evaluation; the material graph has no origin. -/
structure Instance where
  graph : Graph
  origin : Option Origin
  deriving DecidableEq

/-- An interpolant slot: the box that claimed it, the input box that fills it in the vertex stage,
and the context in which that box is to be evaluated. -/
structure Slot where
  node : BoxKey
  input : BoxKey
  context : CallContext
  deriving DecidableEq

/-- What happened, for the record. -/
inductive Event where
  | stageBegun (stage : Stage)
  /-- The recipe of a node starts, in a context and with other nodes still under way. -/
  | dispatched (key : BoxKey) (kind : NodeKind) (id : NodeId) (context : CallContext)
      (active : List (Nat × Nat))
  | instantiated (function : AssetId) (graph : Nat)
  | notLoaded (error : LoadError)
  | reported (diagnostic : Diagnostic)
  | finished (slots diagnostics : Nat)

/-- The line of an event in the log. -/
def Event.line : Event → String
  | stageBegun stage => s!"DEBUG generating {Enumeration.identifier stage} stage"
  | dispatched key kind id _ _ => s!"TRACE evaluating {kind.name} #{id} box {key.box}"
  | instantiated function graph => s!"DEBUG instantiating function {function} as graph {graph}"
  | notLoaded error => s!"DEBUG cannot load function: {error.message}"
  | reported diagnostic => s!"WARN {diagnostic.text}"
  | finished slots diagnostics =>
    s!"DEBUG material generated: {slots} interpolants, {diagnostics} diagnostics"

structure State where
  /-- The material graph, followed by one graph for each call site reached so far. -/
  instances : List Instance
  context : CallContext := .root
  stage : Stage := .pixel
  writer : Writer := {}
  /-- The values of the boxes evaluated in this stage. -/
  memory : List (BoxKey × Value Local) := []
  /-- The nodes under evaluation, the latest first. -/
  active : List (Nat × Nat) := []
  slots : List Slot := []
  textures : List SceneTexture := []
  usage : Usage := {}
  diagnostics : List Diagnostic := []
  /-- The functions asked for, in order. -/
  loads : List AssetId := []
  /-- The latest event first. -/
  trace : List Event := []

namespace State

def ofGraph (g : Graph) : State where
  instances := [⟨g, none⟩]

def instance? (s : State) (graph : Nat) : Option Instance := s.instances[graph]?

def box? (s : State) (key : BoxKey) : Option Box :=
  (s.instance? key.graph).bind fun i => i.graph.box? key.node key.box

def boxType (s : State) (key : BoxKey) : ValueType := ((s.box? key).map (·.type)).getD .float1

def site? (s : State) (key : BoxKey) : Option Site := do
  let i ← s.instance? key.graph
  return ⟨key, i.graph, ← i.graph.node? key.node⟩

/-- The box that feeds an input box. -/
def producer? (s : State) (key : BoxKey) : Option BoxKey :=
  (s.box? key).bind fun b => b.connection.map fun c => ⟨key.graph, c.node.toNat, c.box⟩

/-- The remembered value of a box. -/
def remembered? (s : State) (key : BoxKey) : Option (Value Local) := s.memory.lookup key

/-- Sets or forgets the value of a box; nothing is remembered of a box that does not exist. -/
def remember (s : State) (key : BoxKey) (value : Option (Value Local)) : State :=
  if (s.box? key).isSome then
    let others := s.memory.filter (·.1 != key)
    { s with memory := match value with
        | some v => (key, v) :: others
        | none => others }
  else s

def record (s : State) (e : Event) : State := { s with trace := e :: s.trace }

/-- The diagnostic of a cause at a box. -/
def diagnose (s : State) (key : BoxKey) (cause : Cause) : Diagnostic :=
  let i := s.instance? key.graph
  let origin := i.bind (·.origin)
  { function := origin.map (·.function.id)
    callPath := (origin.map (·.callPath)).getD []
    node := ((i.bind (·.graph.node? key.node)).map (·.id)).getD 0
    box := key.box
    cause }

/-- Notes a problem, once. -/
def report (s : State) (key : BoxKey) (cause : Cause) : State :=
  let d := s.diagnose key cause
  if d ∈ s.diagnostics then s
  else { s.record (.reported d) with diagnostics := s.diagnostics ++ [d] }

def use (s : State) (feature : Feature) : State := { s with usage := s.usage.insert feature }

/-- Registers a texture, once. -/
def sample (s : State) (texture : SceneTexture) : State :=
  if texture ∈ s.textures then s else { s with textures := s.textures ++ [texture] }

/-- Hands out the next slot, unless all are taken or the domain has none. -/
def claim (s : State) (settings : Settings) (key input : BoxKey) : Claim × State :=
  if settings.slotLimit ≤ s.slots.length then (.full settings.slotLimit, s)
  else if !settings.domain.supportsInterpolants then (.unsupported, s)
  else (.granted s.slots.length, { s with slots := s.slots ++ [⟨key, input, s.context⟩] })

/-- Whether a graph made for a function is among those under evaluation. -/
def isCalling (s : State) (function : AssetId) : Bool :=
  s.context.graphs.any fun graph =>
    match (s.instance? graph).bind (·.origin) with
    | some origin => origin.function.id == function
    | none => false

/-- The graph made for a call site. -/
def instanceOf? (s : State) (caller site : Nat) : Option Nat :=
  s.instances.findIdx? fun i =>
    match i.origin with
    | some origin => origin.caller == caller && origin.site == site
    | none => false

/-- The graph of a function for a call site, a copy of its own made at the first call. -/
def instantiate (s : State) (site : Site) (function : MaterialFunction) : Nat × State :=
  match s.instanceOf? site.key.graph site.key.node with
  | some graph => (graph, s)
  | none =>
    let graph := s.instances.length
    let origin := (s.instance? site.key.graph).bind (·.origin)
    let path := (origin.map (·.callPath)).getD [] ++ [site.node.id]
    (graph, { s.record (.instantiated function.id graph) with
      instances := s.instances ++
        [⟨function.graph, some ⟨site.key.graph, site.key.node, function, path⟩⟩] })

/-- Forgets all values and starts a stage. The writer goes on: it is emptied when a stage ends. -/
def beginStage (s : State) (stage : Stage) : State :=
  { s.record (.stageBegun stage) with memory := [], active := [], stage }

/-- The statements of a finished stage. -/
def takeWriter (s : State) : Writer × State := (s.writer, { s with writer := {} })

end State

end ShaderGraph
