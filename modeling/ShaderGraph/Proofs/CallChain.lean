import ShaderGraph.Proofs.Stages

/-! Where a node is evaluated. Whenever a node is dispatched, in either stage, the graphs of the
context are the chain of calls from the material graph to the graph of the node, and the call that
is found for that graph is the one it was made for. So the argument of a function input is looked up
at the right call, and evaluated in the graph of its caller. -/

namespace ShaderGraph

open CallTree

/-- The graph made for a call node is the one found for it. -/
theorem CallTree.instanceOf?_eq {settings : Settings} {g : Graph} {s : State} {i : Nat} {o : Origin}
    (ht : CallTree settings g s.instances) (ho : origin? s.instances i = some o) :
    s.instanceOf? o.caller o.site = some i := by
  cases hj : s.instanceOf? o.caller o.site with
  | none => exact absurd rfl (State.instanceOf?_none hj i o ho rfl)
  | some j =>
    obtain ⟨o', ho', hcaller, hsite⟩ := State.instanceOf?_some hj
    rw [ht.once j i o' o ho' ho hcaller hsite]

namespace State

/-- A graph is called from another: it was made for a call node there. -/
def Calls (s : State) (callee caller : Nat) : Prop :=
  ∃ n node, node? s.instances caller n = some node ∧ node.kind = .materialFunction ∧
    s.instanceOf? caller n = some callee

/-- The context of a node of a graph: the chain of calls that leads to the graph. -/
structure InChain (s : State) (graph : Nat) (context : CallContext) : Prop where
  first : context.graphs.getLast? = some 0
  last : context.graphs.head? = some graph
  calls : context.graphs.IsChain s.Calls

/-- The call that is found for a called graph, and what becomes of its arguments. -/
structure FrameOf (s : State) (graph : Nat) (context : CallContext) (frame : CallFrame) : Prop where
  found : context.currentFrame? = some frame
  graph_eq : frame.graph = graph
  /-- The graph was made for the call node of the frame, from the function of the frame. -/
  made : ∃ inst o, s.instances[graph]? = some inst ∧ inst.origin = some o ∧
    frame.caller = o.caller ∧ frame.site = o.site ∧ frame.function = o.function ∧
    inst.graph = frame.function.graph
  recorded : s.instanceOf? frame.caller frame.site = some graph
  inCaller : context.inCaller.current? = some frame.caller
  /-- What the call passes for an input is evaluated in the graph of the caller. -/
  passed : ∀ settings e site t box producer, t.context = context → site.key.graph = graph →
    frame.argument? site.node.id = some box → t.producer? box = some producer →
    producer.graph = frame.caller ∧
    Engine.argument settings e site t =
      let p := e producer { t with context := context.inCaller }
      (p.1, { p.2 with context := p.2.context.back graph })

variable {settings : Settings} {g : Graph} {s : State} {context : CallContext} {graph : Nat}

theorem isChain_calls (ht : CallTree settings g s.instances) {i : Nat} {c : List Nat}
    (h : Lineage s.instances i c) : c.IsChain s.Calls := by
  induction h with
  | root => exact .singleton 0
  | @call i o c ho hc ih =>
    refine List.isChain_cons.mpr ⟨fun j hj => ?_, ih⟩
    obtain rfl : o.caller = j := Option.some.inj (hc.head?.symm.trans hj)
    obtain ⟨-, node, hn, hk, -⟩ := ht.caller i o ho
    exact ⟨o.site, node, hn, hk, ht.instanceOf?_eq ho⟩

theorem inChain (ht : CallTree settings g s.instances) (hc : context.Valid settings s.instances)
    (hcur : context.current? = some graph) : s.InChain graph context :=
  ⟨(hc.lineage_current hcur).getLast?, hcur, isChain_calls ht (hc.lineage_current hcur)⟩

/-- With one library, the function of a call is the one its graph was made from. -/
theorem frameOf {library : Library} (hr : settings.resolver = ⟨[library]⟩)
    (ht : CallTree settings g s.instances) (hc : context.Valid settings s.instances)
    (hcur : context.current? = some graph) (h0 : graph ≠ 0) :
    ∃ frame, s.FrameOf graph context frame := by
  obtain ⟨frame, hf⟩ := hc.exists_currentFrame? hcur h0
  obtain ⟨o, ho, hcaller, hsite, -⟩ := hc.currentFrame hcur hf
  obtain ⟨inst, hi, hin⟩ := getElem?_of_origin? ho
  have hfunction := hc.function_eq hr ht hcur hf ho
  obtain ⟨o', ho', hgraph⟩ := ht.made graph inst hi h0
  obtain rfl : o' = o := Option.some.inj (ho'.symm.trans hin)
  have hg := (CallContext.currentFrame?_some hcur hf).2
  refine ⟨frame, hf, hg, ?_, ?_, ?_, ?_⟩
  · exact ⟨inst, o', hi, hin, hcaller, hsite, hfunction, by rw [hfunction, hgraph]⟩
  · rw [hcaller, hsite]
    exact ht.instanceOf?_eq ho
  · rw [hcaller]
    exact hc.current?_inCaller ht hcur ho
  · rintro settings e site t box producer rfl hsite ha hp
    refine ⟨(graph_of_producer? hp).trans (CallFrame.argument?_graph ha), ?_⟩
    rw [Engine.argument_inside hf (hg.trans hsite.symm), ha]
    dsimp only
    rw [hp, hg]

end State

/-- The context is the chain of calls to the node that is evaluated, whenever a node is dispatched:
for every graph, library, domain and configuration, in all requests and in both stages of the
material. In a called graph the latest call of that graph is the one it was made for, so that only
the material graph can report a function input without a call. -/
theorem dispatched_in_call_chain (g : Graph) (domain : Domain) (library : Library) (config : Config)
    (requests : List Request) :
    let gen := ((Generator.new g domain ⟨[library]⟩).withConfig config).after requests
    let last := gen.generate.2.state
    last.instances[0]? = some ⟨g, none⟩ ∧
    (∀ key kind id context active, .dispatched key kind id context active ∈ last.trace →
      last.InChain key.graph context ∧
      (key.graph ≠ 0 → ∃ frame, last.FrameOf key.graph context frame)) ∧
    ∀ d ∈ last.diagnostics, d.function ≠ none → d.cause ≠ .missingCall := by
  intro gen last
  obtain ⟨hresolver, hmaterial, hidle⟩ : gen.settings.resolver = ⟨[library]⟩ ∧ gen.material = g ∧
      gen.state.Idle gen.settings gen.material :=
    Generator.idle_after g domain ⟨[library]⟩ config requests
  have hlast : last.Idle gen.settings gen.material := Generator.generate_idle hidle
  rw [hmaterial] at hlast
  refine ⟨hlast.sound.tree.root, fun key kind id context active he => ?_, fun d hd hf hc => ?_⟩
  · obtain ⟨hvalid, hcur, -, -⟩ := hlast.sound.trace _ he
    exact ⟨State.inChain hlast.sound.tree hvalid hcur,
      State.frameOf hresolver hlast.sound.tree hvalid hcur⟩
  · exact hf (hlast.sound.diagnostics d hd hc)

theorem doubled_in_call_chain :
    let gen := ((Generator.new doubled .surface ⟨[⟨[.loaded doubling]⟩]⟩).withConfig {}).after []
    let last := gen.generate.2.state
    ∃ key kind id context active, .dispatched key kind id context active ∈ last.trace ∧
      key.graph = 1 ∧ last.InChain 1 context ∧ ∃ frame, last.FrameOf 1 context frame := by
  have hall := dispatched_in_call_chain doubled .surface ⟨[.loaded doubling]⟩ {} []
  have hcalled : (((Generator.new doubled .surface ⟨[⟨[.loaded doubling]⟩]⟩).withConfig {}).after
      []).generate.2.state.trace.any (fun e => e.underway.head?.map (·.1) == some 1) = true := by
    decide +kernel
  dsimp only at hall ⊢
  generalize (((Generator.new doubled .surface ⟨[⟨[.loaded doubling]⟩]⟩).withConfig {}).after
    []).generate.2.state = last at hall hcalled ⊢
  obtain ⟨e, he, hgraph⟩ := List.any_eq_true.mp hcalled
  cases e with
  | dispatched key kind id context active =>
    have hkey : key.graph = 1 := by simpa [Event.underway] using hgraph
    obtain ⟨hchain, hframe⟩ := hall.2.1 key kind id context active he
    rw [hkey] at hchain hframe
    exact ⟨key, kind, id, context, active, he, hkey, hchain, hframe (by decide)⟩
  | _ => cases hgraph

end ShaderGraph
