import ShaderGraph.Diagnostic
import ShaderGraph.Material.Usage

/-! Recipes: what evaluating a box of a node does, as a tree of requests. A request names an effect
and goes on with its answer; which effects are carried out, and how, is left to whoever runs the
recipe. -/

namespace ShaderGraph

/-- A box among all graphs taking part in an evaluation. The material graph is graph 0. -/
structure BoxKey where
  graph : Nat
  node : Nat
  box : BoxId
  deriving DecidableEq

/-- Another box of the same node. -/
def BoxKey.sibling (key : BoxKey) (box : BoxId) : BoxKey := { key with box }

/-- A box to be evaluated, with its node and graph. -/
structure Site where
  key : BoxKey
  graph : Graph
  node : Node

namespace Site

def box (site : Site) : BoxId := site.key.box

/-- The declared type of a box of the node, a scalar where there is no such box. -/
def boxType (site : Site) (id : BoxId) : ValueType :=
  ((site.node.box? id).map (·.type)).getD .float1

/-- The literal of a numeric parameter, as a value. -/
def paramValue? {ρ : Type} (site : Site) (i : Nat) : Option (Value ρ) :=
  (site.node.param? i).bind Param.value?

end Site

/-- The answer to a request for an interpolant slot. -/
inductive Claim where
  | granted (slot : Nat)
  | full (limit : Nat)
  /-- The material has no interpolants at all. -/
  | unsupported
  deriving DecidableEq

inductive Recipe (ρ : Type) (α : Type) where
  | done (result : α)
  /-- The value of a connected input box, none if it is not connected. -/
  | operand (box : BoxId) (next : Option (Value ρ) → Recipe ρ α)
  /-- A new local variable. -/
  | declare (type : ValueType) (init : Code ρ) (next : Value ρ → Recipe ρ α)
  | block (body : Code ρ) (next : Recipe ρ α)
  | comment (text : String) (next : Recipe ρ α)
  | report (cause : Cause) (next : Recipe ρ α)
  | use (feature : Feature) (next : Recipe ρ α)
  | sample (texture : SceneTexture) (next : Recipe ρ α)
  /-- Sets what is remembered of a box of the node. -/
  | remember (box : BoxId) (value : Option (Value ρ)) (next : Recipe ρ α)
  /-- An interpolant slot, to be filled from an input box. -/
  | claim (input : BoxId) (next : Claim → Recipe ρ α)

namespace Recipe

variable {ρ α β : Type}

def bind (r : Recipe ρ α) (f : α → Recipe ρ β) : Recipe ρ β :=
  match r with
  | done a => f a
  | operand box next => operand box fun v => (next v).bind f
  | declare type init next => declare type init fun v => (next v).bind f
  | block body next => block body (next.bind f)
  | comment text next => comment text (next.bind f)
  | report cause next => report cause (next.bind f)
  | use feature next => use feature (next.bind f)
  | sample texture next => sample texture (next.bind f)
  | remember box value next => remember box value (next.bind f)
  | claim input next => claim input fun c => (next c).bind f

instance : Monad (Recipe ρ) where
  pure := done
  bind := bind

/-! ### Steps of recipes -/

def operand? (box : BoxId) : Recipe ρ (Option (Value ρ)) := operand box done

def newLocal (type : ValueType) (init : Code ρ) : Recipe ρ (Value ρ) := declare type init done

def addBlock (body : Code ρ) : Recipe ρ Unit := block body (done ())

def addComment (text : String) : Recipe ρ Unit := comment text (done ())

def reportCause (cause : Cause) : Recipe ρ Unit := report cause (done ())

def useFeature (feature : Feature) : Recipe ρ Unit := use feature (done ())

def sampleTexture (texture : SceneTexture) : Recipe ρ Unit := sample texture (done ())

def setMemory (box : BoxId) (value : Option (Value ρ)) : Recipe ρ Unit :=
  remember box value (done ())

def claimSlot (input : BoxId) : Recipe ρ Claim := claim input done

/-- The value cast to a type; where that is impossible, a report and the neutral value. -/
def castTo (type : ValueType) (v : Value ρ) : Recipe ρ (Value ρ) :=
  match v.cast type with
  | .ok v => done v
  | .error e => report (.ofTypeMismatch e) (done (.zero type))

/-- The value of an input box if it is connected, else a given one. -/
def operandOr (box : BoxId) (default : Value ρ) : Recipe ρ (Value ρ) := do
  return (← operand? box).getD default

/-- The value of an input box if it is connected, else that of a numeric parameter, else the
neutral value of the box. -/
def operandOrParam (site : Site) (box : BoxId) (param : Nat) : Recipe ρ (Value ρ) :=
  operandOr box ((site.paramValue? param).getD (.zero (site.boxType box)))

/-- The requested box is none that the node gives values for. -/
def invalidOutput (site : Site) : Recipe ρ (Value ρ) :=
  report (.invalidOutput site.box) (done (.zero .float1))

end Recipe

end ShaderGraph
