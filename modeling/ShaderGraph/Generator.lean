import ShaderGraph.Evaluation.Engine
import ShaderGraph.Material.Parameter
import ShaderGraph.Shader.Stage

/-! The generator of a material's shader. Boxes of the material graph can be evaluated one by one;
generating the material evaluates all of its parameters, first those of the pixel stage, then those
of the vertex stage and the interpolants that the pixel stage claimed. -/

namespace ShaderGraph

/-- A material has at most this many interpolants. -/
def maxInterpolants : Nat := 16

/-- What can be configured. -/
structure Config where
  maxInterpolants : Nat := ShaderGraph.maxInterpolants
  comments : Bool := false

inductive GenerateError where
  | missingOutputNode
  deriving DecidableEq

def GenerateError.message : GenerateError → String
  | missingOutputNode => "the material graph has no material output node"

/-- A finished material. -/
structure Material where
  pixel : StageSource
  vertex : StageSource
  interpolants : Nat
  textures : List SceneTexture
  usage : Usage
  diagnostics : List Diagnostic
  deriving DecidableEq

namespace Material

def isClean (m : Material) : Bool := m.diagnostics.isEmpty

def shader (m : Material) : String := shaderSource m.textures m.vertex m.pixel

end Material

structure Generator where
  material : Graph
  settings : Settings
  state : State

namespace Generator

def new (g : Graph) (domain : Domain) (resolver : Resolver) : Generator where
  material := g
  settings := ⟨domain, maxInterpolants, false, resolver⟩
  state := .ofGraph g

/-- Limits the number of interpolants, never beyond what a material can have. -/
def withMaxInterpolants (gen : Generator) (limit : Nat) : Generator :=
  { gen with settings.slotLimit := min limit maxInterpolants }

def withComments (gen : Generator) (comments : Bool) : Generator :=
  { gen with settings.comments := comments }

def withConfig (gen : Generator) (config : Config) : Generator :=
  (gen.withMaxInterpolants config.maxInterpolants).withComments config.comments

/-- The evaluator of output boxes. -/
def evaluator (gen : Generator) : Evaluator :=
  Engine.output gen.settings (Engine.bound gen.settings.resolver gen.material)

/-- Runs an evaluation and keeps its state. -/
def run {α : Type} (gen : Generator) (e : Eval α) : α × Generator :=
  let (a, state) := e gen.state
  (a, { gen with state })

/-- Evaluates an output box of the material graph. -/
def evaluateOutput (gen : Generator) (node : Nat) (box : BoxId) : Value Local × Generator :=
  gen.run (gen.evaluator ⟨0, node, box⟩)

/-- Evaluates an input box of the material graph. -/
def evaluateInput (gen : Generator) (node : Nat) (box : BoxId) : Value Local × Generator :=
  gen.run (Engine.input gen.evaluator ⟨0, node, box⟩)

/-- The value of a parameter, read from a box of the output node. -/
def parameter (evaluate : Evaluator) (output : Nat) (p : Parameter) : Eval StageOutput := do
  let key : BoxKey := ⟨0, output, p.box⟩
  let v ← Engine.operand? evaluate key
  return ⟨p.target, ← Engine.castTo key p.type (v.getD (.literal p.default))⟩

def parameters (evaluate : Evaluator) (output : Nat) (stage : Stage) : Eval (List StageOutput) :=
  (Parameter.inStage stage).mapM (parameter evaluate output)

/-- The value of an interpolant, evaluated in the context in which its slot was claimed. -/
def interpolant (evaluate : Evaluator) (slot : Slot) (i : Nat) : Eval StageOutput := do
  let context := (← get).context
  modify ({ · with context := slot.context })
  let v ← Engine.operand? evaluate slot.input
  let v ← Engine.castTo slot.node .float4 (v.getD (.zero .float4))
  modify ({ · with context })
  return ⟨s!"CustomVSToPS[{i}]", v⟩

def pixelStage (evaluate : Evaluator) (output : Nat) : Eval StageSource := do
  modify (·.beginStage .pixel)
  let outputs ← parameters evaluate output .pixel
  return .ofWriter (← modifyGet State.takeWriter) outputs

def vertexStage (evaluate : Evaluator) (output : Nat) : Eval StageSource := do
  modify (·.beginStage .vertex)
  let outputs ← parameters evaluate output .vertex
  let slots := (← get).slots
  let interpolants ← slots.zipIdx.mapM fun (slot, i) => interpolant evaluate slot i
  return .ofWriter (← modifyGet State.takeWriter) (outputs ++ interpolants)

/-- Both stages, given the output node. -/
def stages (evaluate : Evaluator) (output : Nat) : Eval Material := do
  let pixel ← pixelStage evaluate output
  let vertex ← vertexStage evaluate output
  modify fun s => s.record (.finished s.slots.length s.diagnostics.length)
  let s ← get
  return ⟨pixel, vertex, s.slots.length, s.textures, s.usage, s.diagnostics⟩

/-- Generates the material. -/
def generate (gen : Generator) : Except GenerateError Material × Generator :=
  match gen.material.findKind? .materialOutput with
  | none => (.error .missingOutputNode, gen)
  | some output =>
    let (material, gen) := gen.run (stages gen.evaluator output)
    (.ok material, gen)

/-! ### Looking into a generator -/

/-- The remembered value of a box of the material graph. -/
def remembered? (gen : Generator) (node : Nat) (box : BoxId) : Option (Value Local) :=
  gen.state.remembered? ⟨0, node, box⟩

/-- The lines of the log, first to last. -/
def log (gen : Generator) : List String := gen.state.trace.reverse.map Event.line

end Generator

end ShaderGraph
