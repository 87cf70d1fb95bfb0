import ShaderGraph.Proofs.Requests

/-! A reference for evaluation. Nothing is remembered and nothing is written: a box is evaluated
anew at every use, and a local is the tree of its type and initialiser. A call goes on in the graph
of the function itself, with the call added to the environment, and a function input goes back to
the environment of its call. Whatever would be reported has no value here. -/

namespace ShaderGraph

/-! ### Locals as trees -/

/-- A written local: its type and initialiser, in which all locals are trees themselves. -/
inductive Tree where
  | written (type : ValueType) (init : List (Atom Tree))

/-- A unit of code, a local replaced by its tree. -/
def Atom.expand (tree : Local → Option Tree) : Atom Local → Option (Atom Tree)
  | char c => some (.char c)
  | ref r => (tree r).map .ref

/-- The code with every local replaced by its tree. -/
def Code.expand (tree : Local → Option Tree) (code : Code Local) : Option (Code Tree) :=
  code.mapM (Atom.expand tree)

def Value.expand (tree : Local → Option Tree) : Value Local → Option (Value Tree)
  | literal l => some (.literal l)
  | expr type code => (code.expand tree).map (.expr type)

/-- The tree of a local among statements, the latest of which comes first. The locals of an
initialiser are those declared before it. -/
def Tree.ofLocal : List Statement → Local → Option Tree
  | [], _ => none
  | .declare name type init :: earlier, r =>
    if name = r then (Code.expand (ofLocal earlier) init).map (.written type)
    else ofLocal earlier r
  | .block _ :: earlier, r => ofLocal earlier r
  | .comment _ :: earlier, r => ofLocal earlier r

def Writer.tree (w : Writer) : Local → Option Tree := Tree.ofLocal w.statements.reverse

/-! ### Graphs and functions -/

/-- The output box that feeds an input box. -/
def Graph.producer? (g : Graph) (node : Nat) (box : BoxId) : Option (Nat × BoxId) :=
  (g.box? node box).bind fun b => b.connection.map fun c => (c.node.toNat, c.box)

namespace MaterialFunction

/-- The node that the function lists for an output box of its calls. -/
def outputNode? (function : MaterialFunction) (box : BoxId) : Option Nat := do
  let i ← FunctionCall.outputIndex? box
  let id ← function.outputs[i]?
  function.graph.find? id

/-- The box of a call that holds the argument for an input node. -/
def argumentBox? (function : MaterialFunction) (id : NodeId) : Option BoxId :=
  let i := function.inputs.idxOf id
  if i < function.inputs.length ∧ i < FunctionCall.inputCount then some (FunctionCall.inputBox i)
  else none

end MaterialFunction

/-! ### The evaluator -/

/-- What a reference evaluation is given. -/
structure Reference where
  material : Graph
  library : Library
  domain : Domain
  stage : Stage

namespace Reference

/-- Where a box is evaluated: in the material graph, or in that of a function for a call site. -/
inductive Env where
  | material
  | called (caller : Env) (site : Nat) (function : MaterialFunction)

/-- How to evaluate an output box of a node. -/
abbrev Evaluator := Env → Nat → BoxId → Option (Value Tree)

def graph (ref : Reference) : Env → Graph
  | .material => ref.material
  | .called _ _ function => function.graph

/-- The value of an input box of a node, none inside if it is not connected. -/
def operand (ref : Reference) (e : Evaluator) (env : Env) (node : Nat) (box : BoxId) :
    Option (Option (Value Tree)) :=
  match (ref.graph env).producer? node box with
  | some (n, b) => (e env n b).map some
  | none => some none

/-- The result of a recipe. What it writes is only a tree, and it must not ask for more than
operands and locals. -/
def interpret {α : Type} (operand : BoxId → Option (Option (Value Tree))) : Recipe Tree α → Option α
  | .done a => some a
  | .operand box next => (operand box).bind fun v => interpret operand (next v)
  | .declare type init next => interpret operand (next (.expr type [.ref (.written type init)]))
  | .comment _ next => interpret operand next
  | .use _ next => interpret operand next
  | .sample _ next => interpret operand next
  | .report .. | .block .. | .remember .. | .claim .. => none

/-- An output box of a call node: what feeds the node that the function lists for it. -/
def call (ref : Reference) (e : Evaluator) (env : Env) (site : Site) : Option (Value Tree) := do
  let function ← (ref.library.load site.node.callee).toOption
  let output ← function.outputNode? site.box
  let v ← ref.operand e (.called env site.key.node function) output 0
  return v.getD (.zero .float1)

/-- A function input: the argument at the call site, or the input's own default. -/
def argument (ref : Reference) (e : Evaluator) (env : Env) (site : Site) : Option (Value Tree) :=
  match env with
  | .material => none
  | .called caller n function => do
    let box ← function.argumentBox? site.node.id
    match ← ref.operand e caller n box with
    | some v => return v
    | none => interpret (ref.operand e env site.key.node) (.operandOrParam site 1 1)

def process (ref : Reference) (e : Evaluator) (env : Env) (site : Site) : Option (Value Tree) :=
  match site.node.kind with
  | .materialFunction => ref.call e env site
  | .functionInput => ref.argument e env site
  | _ => interpret (ref.operand e env site.key.node) (site.recipe ref.domain ref.stage)

/-- Evaluates an output box of a node, to a depth of at most `fuel` boxes. -/
def output (ref : Reference) : (fuel : Nat) → Evaluator
  | 0, _, _, _ => none
  | fuel + 1, env, n, box =>
    match (ref.graph env).node? n with
    | some node => ref.process (ref.output fuel) env ⟨⟨0, n, box⟩, ref.graph env, node⟩
    | none => some (.zero .float1)

/-- The value of a parameter, read from a box of the output node. -/
def parameter (ref : Reference) (fuel output : Nat) (p : Parameter) : Option (Value Tree) :=
  interpret (ref.operand (ref.output fuel) .material output) p.recipe

/-! ### Nodes -/

section Process

variable {ref : Reference} {e : Evaluator} {env caller : Env} {site : Site} {n : Nat} {box : BoxId}
  {function : MaterialFunction}

theorem process_plain (hc : site.node.kind ≠ .materialFunction)
    (hi : site.node.kind ≠ .functionInput) :
    ref.process e env site =
      interpret (ref.operand e env site.key.node) (site.recipe ref.domain ref.stage) := by
  unfold process
  split
  · contradiction
  · contradiction
  · rfl

theorem process_call (hk : site.node.kind = .materialFunction) {output : Nat}
    {v : Option (Value Tree)} (hl : ref.library.load site.node.callee = .ok function)
    (ho : function.outputNode? site.box = some output)
    (hv : ref.operand e (.called env site.key.node function) output 0 = some v) :
    ref.process e env site = some (v.getD (.zero .float1)) := by
  simp only [process, hk, call, hl, Except.toOption, ho, hv, bind, Option.bind_some, pure]

theorem process_passed (hk : site.node.kind = .functionInput) {v : Value Tree}
    (hb : function.argumentBox? site.node.id = some box)
    (hv : ref.operand e caller n box = some (some v)) :
    ref.process e (.called caller n function) site = some v := by
  simp only [process, hk, argument, hb, hv, bind, Option.bind_some, pure]

theorem process_defaulted (hk : site.node.kind = .functionInput)
    (hb : function.argumentBox? site.node.id = some box)
    (hv : ref.operand e caller n box = some none) :
    ref.process e (.called caller n function) site =
      interpret (ref.operand e (.called caller n function) site.key.node)
        (.operandOrParam site 1 1) := by
  simp only [process, hk, argument, hb, hv, bind, Option.bind_some]

end Process

/-! ### More fuel keeps values -/

/-- The second evaluator has every value that the first one has. -/
def Extends (e e' : Evaluator) : Prop := ∀ env n box v, e env n box = some v → e' env n box = some v

variable {ref : Reference} {e e' : Evaluator} {env : Env} {n fuel fuel' : Nat} {box : BoxId}
  {site : Site} {v : Value Tree}

theorem Extends.operand (h : Extends e e') {v : Option (Value Tree)}
    (hv : ref.operand e env n box = some v) : ref.operand e' env n box = some v := by
  unfold Reference.operand at hv ⊢
  split at hv
  · obtain ⟨w, hw, rfl⟩ := Option.map_eq_some_iff.mp hv
    rw [h env _ _ w hw]
    rfl
  · exact hv

theorem interpret_mono {α : Type} {f f' : BoxId → Option (Option (Value Tree))}
    (h : ∀ box v, f box = some v → f' box = some v) {r : Recipe Tree α} {a : α}
    (ha : interpret f r = some a) : interpret f' r = some a := by
  induction r with
  | operand box next ih =>
    obtain ⟨v, hv, hnext⟩ := Option.bind_eq_some_iff.mp ha
    exact Option.bind_eq_some_iff.mpr ⟨v, h box v hv, ih v hnext⟩
  | declare type init next ih => exact ih _ ha
  | done => exact ha
  | comment _ _ ih => exact ih ha
  | use _ _ ih => exact ih ha
  | sample _ _ ih => exact ih ha
  | report | block | remember | claim => cases ha

theorem Extends.interpret (h : Extends e e') {r : Recipe Tree (Value Tree)}
    (hv : interpret (ref.operand e env n) r = some v) :
    Reference.interpret (ref.operand e' env n) r = some v :=
  interpret_mono (fun _ _ => h.operand) hv

theorem Extends.call (h : Extends e e') (hv : ref.call e env site = some v) :
    ref.call e' env site = some v := by
  simp only [Reference.call, bind, Option.bind_eq_some_iff] at hv ⊢
  obtain ⟨function, hf, output, ho, w, hw, hv⟩ := hv
  exact ⟨function, hf, output, ho, w, h.operand hw, hv⟩

theorem Extends.argument (h : Extends e e') (hv : ref.argument e env site = some v) :
    ref.argument e' env site = some v := by
  cases env with
  | material => cases hv
  | called caller n function =>
    simp only [Reference.argument, bind, Option.bind_eq_some_iff] at hv ⊢
    obtain ⟨box, hb, w, hw, hv⟩ := hv
    refine ⟨box, hb, w, h.operand hw, ?_⟩
    cases w with
    | some w => exact hv
    | none => exact h.interpret hv

theorem Extends.process (h : Extends e e') (hv : ref.process e env site = some v) :
    ref.process e' env site = some v := by
  unfold Reference.process at hv ⊢
  split at hv
  · exact h.call hv
  · exact h.argument hv
  · exact h.interpret hv

theorem output_extends_succ (ref : Reference) (fuel : Nat) :
    Extends (ref.output fuel) (ref.output (fuel + 1)) := by
  induction fuel with
  | zero => exact fun _ _ _ _ h => by cases h
  | succ fuel ih =>
    intro env n box v hv
    rw [output] at hv ⊢
    split at hv
    · exact ih.process hv
    · exact hv

theorem output_extends (ref : Reference) (h : fuel ≤ fuel') :
    Extends (ref.output fuel) (ref.output fuel') := by
  induction h with
  | refl => exact fun _ _ _ _ h => h
  | step _ ih =>
    intro env n box v hv
    exact output_extends_succ ref _ env n box v (ih env n box v hv)

end Reference

end ShaderGraph
