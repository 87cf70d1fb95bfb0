import ShaderGraph.Proofs.Twins

/-! Calls of functions that cannot be loaded, replaced by constants. Each such call gives way to the
constant zero in the same place, and what was fed from an output of the call is fed from the
constant. What is looked up in the graphs of an evaluation is found in the replaced graphs as well,
except at the replaced nodes. -/

namespace ShaderGraph

/-- A call of a function that the library has no entry for, or a broken one. -/
def Node.unloadable (library : Library) (n : Node) : Bool :=
  n.kind == .materialFunction && !(library.load n.callee).isOk

namespace Graph

variable (library : Library) (g : Graph)

def unloadableAt (i : Nat) : Bool := (g.node? i).any (·.unloadable library)

/-- Connections from a replaced node lead from the only box of the constant. -/
def redirect (c : Connection) : Connection :=
  if g.unloadableAt library c.node.toNat then { c with box := 0 } else c

def replaceBox (b : Box) : Box := { b with connection := b.connection.map (g.redirect library) }

def replaceNode (n : Node) : Node :=
  if n.unloadable library then .ofKind n.id .float [.float .zero]
  else { n with boxes := n.boxes.map (g.replaceBox library) }

/-- The graph with the constant zero for each call that cannot be loaded. -/
def replaced : Graph := ⟨g.nodes.map (g.replaceNode library)⟩

/-- No output of custom code feeds a call that cannot be loaded. -/
def SparesCustomCode : Prop :=
  ∀ n ∈ g.nodes, n.unloadable library → ∀ b ∈ n.boxes, ∀ c ∈ b.connection,
    g.kind? c.node.toNat ≠ some .customCode

instance : Decidable (g.SparesCustomCode library) := by
  unfold SparesCustomCode
  infer_instance

end Graph

def MaterialFunction.replaced (library : Library) (f : MaterialFunction) : MaterialFunction :=
  { f with graph := f.graph.replaced library }

/-- If an output that can be asked for is named after a call that cannot be loaded, the first box
of that call is not connected. -/
def MaterialFunction.SparesOutputs (library : Library) (f : MaterialFunction) : Prop :=
  ∀ id ∈ f.outputs.take FunctionCall.outputCount, ∀ n ∈ f.graph.nodes, n.id = id →
    n.unloadable library → (n.box? 0).bind (·.connection) = none

-- The list is searched, not the type of identifiers, which is finite too.
instance (library : Library) (f : MaterialFunction) : Decidable (f.SparesOutputs library) :=
  List.decidableBAll _ _

namespace Library

def Entry.replaced (library : Library) : Entry → Entry
  | .loaded f => .loaded (f.replaced library)
  | .broken id reason => .broken id reason

/-- The same functions, with the replaced graphs. -/
def replaced (library : Library) : Library := ⟨library.entries.map (Entry.replaced library)⟩

theorem load_replaced (library : Library) (id : AssetId) :
    library.replaced.load id = (library.load id).map (·.replaced library) := by
  have hid (e : Entry) : (e.replaced library).id = e.id := by cases e <;> rfl
  simp only [load, replaced, List.find?_map, Function.comp_def, hid]
  generalize List.find? _ library.entries = entry
  rcases entry with _ | _ | _ <;> rfl

end Library

/-! ### Nodes and graphs -/

section

variable {library : Library} {g : Graph} {n : Node} {i : Nat}

theorem Node.unloadable_iff : n.unloadable library = true ↔
    n.kind = .materialFunction ∧ ∃ e, library.load n.callee = .error e := by
  unfold Node.unloadable
  cases library.load n.callee <;> simp [Except.isOk, Except.toBool]

theorem Node.unloadable_of_ok {f : MaterialFunction} (h : library.load n.callee = .ok f) :
    n.unloadable library = false := by
  simp [Node.unloadable, h, Except.isOk, Except.toBool]

namespace Graph

theorem unloadableAt_of_node? (h : g.node? i = some n) :
    g.unloadableAt library i = n.unloadable library := by
  rw [unloadableAt, h]
  rfl

theorem node?_replaced (library : Library) (g : Graph) (i : Nat) :
    (g.replaced library).node? i = (g.node? i).map (g.replaceNode library) :=
  List.getElem?_map

theorem replaceNode_loadable (g : Graph) (h : n.unloadable library = false) :
    g.replaceNode library n = { n with boxes := n.boxes.map (g.replaceBox library) } :=
  if_neg (by simp [h])

theorem replaceNode_unloadable (g : Graph) (h : n.unloadable library = true) :
    g.replaceNode library n = .ofKind n.id .float [.float .zero] :=
  if_pos h

theorem id_replaceNode (library : Library) (g : Graph) (n : Node) :
    (g.replaceNode library n).id = n.id := by
  unfold replaceNode
  split <;> rfl

theorem find?_replaced (library : Library) (g : Graph) (id : NodeId) :
    (g.replaced library).find? id = g.find? id := by
  simp [find?, replaced, List.findIdx?_map, Function.comp_def, id_replaceNode]

theorem findKind?_materialOutput_replaced (library : Library) (g : Graph) :
    (g.replaced library).findKind? .materialOutput = g.findKind? .materialOutput := by
  have hkind (n : Node) :
      ((g.replaceNode library n).kind == .materialOutput) = (n.kind == .materialOutput) := by
    cases hn : n.unloadable library with
    | true =>
      rw [replaceNode_unloadable g hn, (Node.unloadable_iff.mp hn).1]
      rfl
    | false => rw [replaceNode_loadable g hn]
  simp [findKind?, replaced, List.findIdx?_map, Function.comp_def, hkind]

theorem box?_replaceNode (g : Graph) (h : n.unloadable library = false) (id : BoxId) :
    (g.replaceNode library n).box? id = (n.box? id).map (g.replaceBox library) := by
  rw [replaceNode_loadable g h]
  simp only [Node.box?, List.find?_map]
  rfl

theorem box?_replaced (h : g.unloadableAt library i = false) (id : BoxId) :
    (g.replaced library).box? i id = (g.box? i id).map (g.replaceBox library) := by
  unfold box?
  rw [node?_replaced]
  cases hn : g.node? i with
  | none => rfl
  | some n => exact box?_replaceNode g (unloadableAt_of_node? hn ▸ h) id

/-- A constant is not fed. -/
theorem connection_replaced {b : Box} {id : BoxId} (h : g.unloadableAt library i = true)
    (hb : (g.replaced library).box? i id = some b) : b.connection = none := by
  unfold box? at hb
  rw [node?_replaced] at hb
  cases hn : g.node? i with
  | none => simp [hn] at hb
  | some n =>
    rw [unloadableAt_of_node? hn] at h
    rw [hn, Option.map_some, Option.bind_some, replaceNode_unloadable g h] at hb
    exact connection_ofKind (List.mem_of_find?_eq_some hb)

/-- Neither a constant nor the call that it replaces reads custom code. -/
theorem reads_replaceNode (hg : g.SparesCustomCode library) (hn : n ∈ g.nodes)
    (hi : g.kind? i = some .customCode) (id : BoxId) :
    (g.replaceNode library n).Reads i id ↔ n.Reads i id := by
  cases hu : n.unloadable library with
  | true =>
    rw [replaceNode_unloadable g hu]
    constructor
    · rintro ⟨b, hb, c, hc, -⟩
      simp [connection_ofKind hb] at hc
    · rintro ⟨b, hb, c, hc, rfl, -⟩
      exact absurd hi (hg n hn hu b hb c hc)
  | false =>
    have hat : g.unloadableAt library i = false := by
      obtain ⟨node, hnode, hk⟩ := Option.map_eq_some_iff.mp hi
      simp [unloadableAt_of_node? hnode, Node.unloadable, hk]
    have hc (c : Connection) : ((g.redirect library c).node.toNat = i ∧
        (g.redirect library c).box = id) ↔ c.node.toNat = i ∧ c.box = id := by
      unfold redirect
      split
      next hc =>
        have hne : c.node.toNat ≠ i := by
          rintro rfl
          simp [hat] at hc
        simp [hne]
      next => rfl
    simp [replaceNode_loadable g hu, Node.Reads, Box.Reads, replaceBox, hc]

/-- Custom code has the readers that it had. -/
theorem hasConsumers_replaced (hg : g.SparesCustomCode library)
    (hi : g.kind? i = some .customCode) (id : BoxId) :
    (g.replaced library).hasConsumers i id = g.hasConsumers i id := by
  rw [Bool.eq_iff_iff, hasConsumers_iff_reads, hasConsumers_iff_reads]
  simp only [replaced, List.mem_map, exists_exists_and_eq_and]
  exact exists_congr fun n => and_congr_right fun hn => reads_replaceNode hg hn hi id

end Graph

end

theorem MaterialFunction.SparesOutputs.unfed {library : Library} {f : MaterialFunction} {n : Node}
    {box : BoxId} {i output : Nat} {id : NodeId} (h : f.SparesOutputs library)
    (hi : FunctionCall.outputIndex? box = some i) (hid : f.outputs[i]? = some id)
    (hf : f.graph.find? id = some output) (hn : f.graph.node? output = some n)
    (hu : n.unloadable library = true) : (n.box? 0).bind (·.connection) = none := by
  obtain ⟨hlt, hnode, -⟩ := List.findIdx?_eq_some_iff_getElem.mp hf
  obtain rfl : f.graph.nodes[output] = n :=
    Option.some.inj ((List.getElem?_eq_getElem hlt).symm.trans hn)
  have hcount : i < FunctionCall.outputCount := by
    simp only [FunctionCall.outputIndex?] at hi
    split at hi
    · cases hi
      omega
    · cases hi
  have hmem : id ∈ f.outputs.take FunctionCall.outputCount := by
    rw [List.mem_iff_getElem?]
    exact ⟨i, by rw [List.getElem?_take_of_lt hcount, hid]⟩
  exact h id hmem _ (List.getElem_mem hlt) (beq_iff_eq.mp hnode) hu

/-! ### Graphs of an evaluation -/

def Origin.replaced (library : Library) (o : Origin) : Origin :=
  { o with function := o.function.replaced library }

def Instance.replaced (library : Library) (i : Instance) : Instance :=
  ⟨i.graph.replaced library, i.origin.map (·.replaced library)⟩

def CallFrame.replaced (library : Library) (f : CallFrame) : CallFrame :=
  { f with function := f.function.replaced library }

def CallContext.replaced (library : Library) (c : CallContext) : CallContext :=
  { c with frames := c.frames.map (·.replaced library) }

def Site.replaced (library : Library) (site : Site) : Site :=
  ⟨site.key, site.graph.replaced library, site.graph.replaceNode library site.node⟩

theorem CallContext.currentFrame?_replaced (library : Library) (c : CallContext) :
    (c.replaced library).currentFrame? = c.currentFrame?.map (·.replaced library) := by
  unfold CallContext.currentFrame? CallContext.current? CallContext.replaced
  cases c.graphs.head? with
  | none => rfl
  | some graph =>
    simp only [Option.bind_some, List.find?_map]
    rfl

theorem CallContext.leave_replaced (library : Library) (c : CallContext) :
    (c.replaced library).leave = c.leave.replaced library := by
  simp [CallContext.replaced, CallContext.leave]

theorem Site.id_replaced (library : Library) (site : Site) :
    (site.replaced library).node.id = site.node.id :=
  Graph.id_replaceNode ..

/-- A node that is not replaced looks the same to its recipe. -/
theorem Site.alike_replaced {library : Library} {site : Site}
    (hg : site.graph.SparesCustomCode library)
    (hn : site.graph.node? site.key.node = some site.node)
    (hu : site.node.unloadable library = false) : site.Alike (site.replaced library) := by
  have hnode : (site.replaced library).node =
      { site.node with boxes := site.node.boxes.map (site.graph.replaceBox library) } :=
    Graph.replaceNode_loadable site.graph hu
  constructor
  case box => rfl
  case kind => rw [hnode]
  case params => rw [hnode]
  case decls =>
    intro id
    change ((site.graph.replaceNode library site.node).box? id).map Box.decl = _
    rw [Graph.box?_replaceNode site.graph hu, Option.map_map]
    rfl
  case readers =>
    intro hk k _
    exact Graph.hasConsumers_replaced hg (Option.map_eq_some_iff.mpr ⟨_, hn, hk⟩) _

namespace CallTree

/-- The node in a place is replaced. -/
def unloadable (library : Library) (table : List Instance) (p : Nat × Nat) : Bool :=
  table[p.1]?.any (·.graph.unloadableAt library p.2)

/-- The box that is read in the place of a given one. -/
def reading (library : Library) (table : List Instance) (key : BoxKey) : BoxKey :=
  if unloadable library table key.place then key.sibling 0 else key

variable {library : Library} {table table' : List Instance} {p : Nat × Nat} {node : Node}
  {key : BoxKey}

theorem unloadable_of_node? (h : node? table p.1 p.2 = some node) :
    unloadable library table p = node.unloadable library := by
  obtain ⟨inst, hi, hn⟩ := Option.bind_eq_some_iff.mp h
  rw [unloadable, hi]
  exact Graph.unloadableAt_of_node? hn

theorem node?_of_unloadable (h : unloadable library table p = true) :
    ∃ node, node? table p.1 p.2 = some node ∧ node.unloadable library = true := by
  obtain ⟨inst, hi, hn⟩ := (Option.any_eq_true _ _).mp h
  obtain ⟨node, hnode, hu⟩ := (Option.any_eq_true _ _).mp hn
  exact ⟨node, Option.bind_eq_some_iff.mpr ⟨inst, hi, hnode⟩, hu⟩

theorem unloadable_mono (hp : table <+: table') (h : unloadable library table p = true) :
    unloadable library table' p = true := by
  obtain ⟨node, hn, hu⟩ := node?_of_unloadable h
  rw [unloadable_of_node? (node?_mono hp hn), hu]

theorem reading_loadable (h : unloadable library table key.place = false) :
    reading library table key = key :=
  if_neg (by simp [h])

theorem reading_unloadable (h : unloadable library table key.place = true) :
    reading library table key = key.sibling 0 :=
  if_pos h

end CallTree

open CallTree

/-! ### Looking things up in replaced graphs -/

section

variable {library : Library} {s u : State} {key : BoxKey}
  (hu : u.instances = s.instances.map (·.replaced library))

include hu

theorem State.instance?_replaced (i : Nat) :
    u.instance? i = (s.instance? i).map (·.replaced library) := by
  rw [State.instance?, hu, List.getElem?_map]
  rfl

theorem State.site?_replaced (key : BoxKey) :
    u.site? key = (s.site? key).map (·.replaced library) := by
  unfold State.site?
  rw [State.instance?_replaced hu]
  cases s.instance? key.graph with
  | none => rfl
  | some inst =>
    simp only [Option.map_some, bind, Option.bind_some, Instance.replaced, Graph.node?_replaced]
    cases inst.graph.node? key.node <;> rfl

theorem State.map_decl_replaced (hk : unloadable library s.instances key.place = false) :
    (u.box? key).map Box.decl = (s.box? key).map Box.decl := by
  unfold State.box?
  rw [State.instance?_replaced hu]
  cases hi : s.instance? key.graph with
  | none => rfl
  | some inst =>
    have hgraph : inst.graph.unloadableAt library key.node = false := by
      rw [unloadable, show s.instances[key.place.1]? = some inst from hi] at hk
      exact hk
    simp only [Option.map_some, Option.bind_some, Instance.replaced]
    rw [Graph.box?_replaced hgraph, Option.map_map]
    rfl

theorem State.boxType_replaced (hk : unloadable library s.instances key.place = false) :
    u.boxType key = s.boxType key := by
  have htypes := congrArg (Option.map BoxDecl.type) (State.map_decl_replaced hu hk)
  rw [Option.map_map, Option.map_map] at htypes
  exact congrArg (·.getD .float1) htypes

theorem State.producer?_replaced (hk : unloadable library s.instances key.place = false) :
    u.producer? key = (s.producer? key).map (reading library s.instances) := by
  unfold State.producer? State.box?
  rw [State.instance?_replaced hu]
  cases hi : s.instance? key.graph with
  | none => rfl
  | some inst =>
    have hat (n : Nat) : unloadable library s.instances (key.graph, n) =
        inst.graph.unloadableAt library n := by
      rw [unloadable, show s.instances[(key.graph, n).1]? = some inst from hi]
      rfl
    have hgraph : inst.graph.unloadableAt library key.node = false := (hat key.node).symm.trans hk
    simp only [Option.map_some, Option.bind_some, Instance.replaced]
    rw [Graph.box?_replaced hgraph]
    cases inst.graph.box? key.node key.box with
    | none => rfl
    | some b =>
      simp only [Option.map_some, Option.bind_some, Graph.replaceBox, Option.map_map]
      refine congrArg (b.connection.map ·) (funext fun c => ?_)
      have hplace : unloadable library s.instances
          (BoxKey.place ⟨key.graph, c.node.toNat, c.box⟩) = _ := hat c.node.toNat
      simp only [Function.comp_apply, Graph.redirect, reading, hplace]
      split <;> rfl

/-- Nothing feeds a constant. -/
theorem State.producer?_constant (hk : unloadable library s.instances key.place = true) :
    u.producer? key = none := by
  obtain ⟨inst, hi, hn⟩ := (Option.any_eq_true _ _).mp hk
  have hi' : s.instance? key.graph = some inst := hi
  unfold State.producer? State.box?
  rw [State.instance?_replaced hu, hi']
  simp only [Option.map_some, Option.bind_some, Instance.replaced]
  cases hb : (inst.graph.replaced library).box? key.node key.box with
  | none => rfl
  | some b =>
    rw [Option.bind_some, Graph.connection_replaced hn hb]
    rfl

theorem State.diagnose_replaced (key : BoxKey) (cause : Cause) :
    u.diagnose key cause = s.diagnose key cause := by
  unfold State.diagnose
  rw [State.instance?_replaced hu]
  cases s.instance? key.graph with
  | none => rfl
  | some inst =>
    simp only [Option.map_some, Option.bind_some, Instance.replaced, Graph.node?_replaced,
      Option.map_map, Function.comp_def, Graph.id_replaceNode]
    rfl

theorem State.instanceOf?_replaced (caller site : Nat) :
    u.instanceOf? caller site = s.instanceOf? caller site := by
  unfold State.instanceOf?
  rw [hu, List.findIdx?_map]
  refine congrArg (List.findIdx? · s.instances) (funext fun inst => ?_)
  dsimp only [Function.comp_apply, Instance.replaced]
  cases inst.origin <;> rfl

theorem State.isCalling_replaced (hc : u.context = s.context.replaced library) (id : AssetId) :
    u.isCalling id = s.isCalling id := by
  unfold State.isCalling
  rw [hc]
  refine congrArg (List.any s.context.graphs) (funext fun graph => ?_)
  rw [State.instance?_replaced hu]
  cases s.instance? graph with
  | none => rfl
  | some inst =>
    simp only [Option.map_some, Option.bind_some, Instance.replaced]
    cases inst.origin <;> rfl

theorem State.outputNode?_replaced (site : Site) (f : MaterialFunction) (graph : Nat) :
    Engine.outputNode? u (site.replaced library) (f.replaced library) graph =
      Engine.outputNode? s site f graph := by
  unfold Engine.outputNode?
  rw [State.instance?_replaced hu]
  cases s.instance? graph with
  | none => rfl
  | some inst =>
    simp only [Option.map_some, bind, Option.bind_some, Instance.replaced, Graph.find?_replaced]
    rfl

end

end ShaderGraph
