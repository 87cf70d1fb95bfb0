import ShaderGraph.Evaluation.Kinds
import ShaderGraph.Evaluation.State

/-! Evaluation of boxes. A box is evaluated on demand, by running the recipe of its node, and its
value is remembered for the rest of the stage. A node under evaluation that is asked for again
depends on itself, which is reported.

Every function here that evaluates further boxes takes the evaluator of output boxes as an argument.
The evaluator itself recurs on a bound for the number of nodes under way at once. -/

namespace ShaderGraph

abbrev Eval := StateM State

/-- How to evaluate an output box. -/
abbrev Evaluator := BoxKey → Eval (Value Local)

namespace Engine

/-- Notes a problem. -/
def report (key : BoxKey) (cause : Cause) : Eval Unit := modify (·.report key cause)

/-- The value of a connected input box. -/
def operand? (evaluate : Evaluator) (key : BoxKey) : Eval (Option (Value Local)) := do
  match (← get).producer? key with
  | some producer => return some (← evaluate producer)
  | none => return none

/-- The value of an input box, the neutral one of its type if it is not connected. -/
def input (evaluate : Evaluator) (key : BoxKey) : Eval (Value Local) := do
  return (← operand? evaluate key).getD (.zero ((← get).boxType key))

/-- The value cast to a type; where that is impossible, a report and the neutral value. -/
def castTo (key : BoxKey) (type : ValueType) (v : Value Local) : Eval (Value Local) :=
  match v.cast type with
  | .ok v => return v
  | .error e => do
    report key (.ofTypeMismatch e)
    return .zero type

/-- Carries out the requests of a recipe for a node. -/
def run {α : Type} (settings : Settings) (evaluate : Evaluator) (key : BoxKey) :
    Recipe Local α → Eval α
  | .done a => return a
  | .operand box next => do
    let v ← operand? evaluate (key.sibling box)
    run settings evaluate key (next v)
  | .declare type init next => do
    let (v, writer) := (← get).writer.declare type init
    modify ({ · with writer })
    run settings evaluate key (next v)
  | .block body next => do
    modify fun s => { s with writer := s.writer.push (.block body) }
    run settings evaluate key next
  | .comment text next => do
    if settings.comments then
      modify fun s => { s with writer := s.writer.push (.comment text) }
    run settings evaluate key next
  | .report cause next => do
    report key cause
    run settings evaluate key next
  | .use feature next => do
    modify (·.use feature)
    run settings evaluate key next
  | .sample texture next => do
    modify (·.sample texture)
    run settings evaluate key next
  | .remember box value next => do
    modify (·.remember (key.sibling box) value)
    run settings evaluate key next
  | .claim input next => do
    let c ← modifyGet (·.claim settings key (key.sibling input))
    run settings evaluate key (next c)

/-! ### Function calls -/

/-- Asks for a function. -/
def load (settings : Settings) (id : AssetId) : Eval (Except LoadError MaterialFunction) :=
  modifyGet fun s => (settings.resolver.load s.loads.length id, { s with loads := s.loads ++ [id] })

/-- The node whose first box holds the value of a call's output box. -/
def outputNode? (s : State) (site : Site) (function : MaterialFunction) (graph : Nat) :
    Option Nat := do
  let i ← FunctionCall.outputIndex? site.box
  let id ← function.outputs[i]?
  (← s.instance? graph).graph.find? id

/-- Evaluates an output of a function within a new call. -/
def enter (evaluate : Evaluator) (site : Site) (function : MaterialFunction) (graph output : Nat) :
    Eval (Value Local) := do
  modify fun s =>
    { s with context := s.context.enter ⟨site.key.graph, site.key.node, graph, function⟩ }
  let v ← operand? evaluate ⟨graph, output, 0⟩
  modify fun s => { s with context := s.context.leave }
  return v.getD (.zero .float1)

/-- Evaluates an output box of a call node. -/
def call (settings : Settings) (evaluate : Evaluator) (site : Site) : Eval (Value Local) := do
  modify (·.use .functions)
  let id := ((site.node.param? 0).bind Param.asset?).getD .nil
  match ← load settings id with
  | .error e =>
    modify (·.record (.notLoaded e))
    report site.key (.missingOrInvalidAsset id)
    return .zero .float1
  | .ok function =>
    if (← get).isCalling id then
      report site.key (.recursiveCall id)
      return .zero .float1
    else
      let graph ← modifyGet (·.instantiate site function)
      match outputNode? (← get) site function graph with
      | some output => enter evaluate site function graph output
      | none =>
        report site.key (.invalidOutput site.box)
        return .zero .float1

/-- Evaluates a function input: the argument at the call, taken in the caller's graph, or the
default of the input where there is no argument. -/
def argument (settings : Settings) (evaluate : Evaluator) (site : Site) : Eval (Value Local) := do
  match (← get).context.currentFrame? with
  | some frame =>
    if frame.graph ≠ site.key.graph then
      report site.key .missingCall
      return .zero .float1
    else
      let i := frame.function.inputs.idxOf site.node.id
      if i < frame.function.inputs.length ∧ i < FunctionCall.inputCount then
        let key : BoxKey := ⟨frame.caller, frame.site, FunctionCall.inputBox i⟩
        match (← get).producer? key with
        | some producer =>
          modify fun s => { s with context := s.context.inCaller }
          let v ← evaluate producer
          modify fun s => { s with context := s.context.back frame.graph }
          return v
        | none => run settings evaluate site.key (Recipe.operandOrParam site 1 1)
      else
        report site.key (.invalidInput site.node.id)
        return .zero .float1
  | none =>
    report site.key .missingCall
    return .zero .float1

/-! ### The evaluator -/

/-- Computes the value of a box. -/
def process (settings : Settings) (evaluate : Evaluator) (site : Site) : Eval (Value Local) := do
  match site.node.kind with
  | .materialFunction => call settings evaluate site
  | .functionInput => argument settings evaluate site
  | _ => run settings evaluate site.key (site.recipe settings.domain (← get).stage)

/-- Computes the value of a box whose node is not under evaluation yet, and remembers it. -/
def dispatch (settings : Settings) (evaluate : Evaluator) (site : Site) : Eval (Value Local) := do
  let key := site.key
  modify fun s =>
    { s.record (.dispatched key site.node.kind site.node.id s.context s.active) with
      active := (key.graph, key.node) :: s.active }
  let v ← process settings evaluate site
  modify fun s => { s with active := s.active.erase (key.graph, key.node) }
  if ((← get).remembered? key).isNone then modify (·.remember key (some v))
  return v

/-- Evaluates an output box, given the evaluator of the boxes that it depends on. -/
def level (settings : Settings) (evaluate : Evaluator) : Evaluator := fun key => do
  let s ← get
  match s.remembered? key, s.site? key with
  | some v, _ => return v
  | none, none => return .zero .float1
  | none, some site =>
    if (key.graph, key.node) ∈ s.active then
      report key (.dependsOnItself site.node.id)
      return .zero (s.boxType key)
    else dispatch settings evaluate site

/-- Evaluates an output box, with at most `fuel` nodes under way. -/
def output (settings : Settings) : (fuel : Nat) → Evaluator
  | 0 => fun _ => return .zero .float1
  | fuel + 1 => level settings (output settings fuel)

/-! ### A bound for the nodes under way

A graph is made for each call site, along chains of calls in which no function occurs twice. So with
at most `n` nodes in a graph and `k` functions there are at most `(n + 1) ^ k` graphs. -/

/-- The functions that can be loaded. -/
def functions (resolver : Resolver) : List MaterialFunction :=
  resolver.libraries.flatMap fun library => library.entries.filterMap fun
    | .loaded function => some function
    | .broken .. => none

/-- The largest number of nodes in a graph. -/
def largest (resolver : Resolver) (g : Graph) : Nat :=
  ((functions resolver).map (·.graph.nodes.length)).foldl max g.nodes.length

/-- A number of nodes that is never under way at once. -/
def bound (resolver : Resolver) (g : Graph) : Nat :=
  let n := largest resolver g
  let k := ((functions resolver).map (·.id)).eraseDups.length
  n * Nat.pow (n + 1) k + 1

end Engine

end ShaderGraph
