import ShaderGraph.Library

/-! The context of an evaluation: which function calls it is in. -/

namespace ShaderGraph

/-- An active call: the graph and node it was made from, and the graph made for it. -/
structure CallFrame where
  caller : Nat
  site : Nat
  graph : Nat
  function : MaterialFunction
  deriving DecidableEq

/-- The active calls and the graphs under evaluation, the latest first. An argument is evaluated in
the graph of the caller while its call stays active, so there can be more calls than graphs. -/
structure CallContext where
  frames : List CallFrame
  graphs : List Nat
  deriving DecidableEq

namespace CallContext

/-- In the material graph, outside of any call. -/
def root : CallContext := ⟨[], [0]⟩

def current? (c : CallContext) : Option Nat := c.graphs.head?

def depth (c : CallContext) : Nat := c.frames.length

def enter (c : CallContext) (frame : CallFrame) : CallContext :=
  ⟨frame :: c.frames, frame.graph :: c.graphs⟩

def leave (c : CallContext) : CallContext := ⟨c.frames.tail, c.graphs.tail⟩

/-- The latest call of the current graph. -/
def currentFrame? (c : CallContext) : Option CallFrame :=
  c.current?.bind fun graph => c.frames.find? (·.graph == graph)

/-- The context of the current graph's caller, all calls staying active. -/
def inCaller (c : CallContext) : CallContext := { c with graphs := c.graphs.tail }

/-- Back from the caller to a called graph. -/
def back (c : CallContext) (graph : Nat) : CallContext := { c with graphs := graph :: c.graphs }

end CallContext

end ShaderGraph
