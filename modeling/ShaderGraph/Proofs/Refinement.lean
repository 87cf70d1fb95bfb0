import ShaderGraph.Proofs.Expansion

/-! Evaluation refines the reference. As long as nothing is reported, every value, with its locals
spelled out as trees, is the one that the reference evaluator has for the same box in the
environment of the current graph. What is remembered is such a value too, so it makes no difference
whether a box is evaluated again. -/

namespace ShaderGraph

/-! ### Environments of graphs -/

namespace Reference

open CallTree

/-- The environment of a graph: the calls that lead to it. -/
inductive EnvOf (table : List Instance) : Nat → Env → Prop
  | material : EnvOf table 0 .material
  | called {i o env} (ho : origin? table i = some o) (h : EnvOf table o.caller env) :
      EnvOf table i (.called env o.site o.function)

variable {ref : Reference} {settings : Settings} {table table' : List Instance} {i : Nat}
  {env env' : Env}

theorem EnvOf.mono (hp : table <+: table') (h : EnvOf table i env) : EnvOf table' i env := by
  induction h with
  | material => exact .material
  | called ho _ ih => exact .called (origin?_mono hp ho) ih

theorem EnvOf.of_origin {o : Origin} (hr : origin? table 0 = none) (ho : origin? table i = some o)
    (h : EnvOf table i env) :
    ∃ caller, env = .called caller o.site o.function ∧ EnvOf table o.caller caller := by
  cases h with
  | material => simp [hr] at ho
  | @called _ o' caller ho' h =>
    obtain rfl : o = o' := Option.some.inj (ho.symm.trans ho')
    exact ⟨caller, rfl, h⟩

theorem EnvOf.unique (hr : origin? table 0 = none) (h : EnvOf table i env)
    (h' : EnvOf table i env') : env = env' := by
  induction h generalizing env' with
  | material =>
    cases h' with
    | material => rfl
    | called ho' => simp [hr] at ho'
  | called ho _ ih =>
    obtain ⟨caller, rfl, hcaller⟩ := h'.of_origin hr ho
    rw [ih hcaller]

/-- A graph of the tree is the graph of its environment. -/
theorem EnvOf.graph_eq (ht : CallTree settings ref.material table) (h : EnvOf table i env) :
    ∃ inst, table[i]? = some inst ∧ inst.graph = ref.graph env := by
  cases h with
  | material => exact ⟨_, ht.root, rfl⟩
  | @called _ o env ho =>
    obtain ⟨inst, hi, hin⟩ := getElem?_of_origin? ho
    have h0 : i ≠ 0 := by
      rintro rfl
      simp [ht.origin?_root] at ho
    obtain ⟨o', ho', hgraph⟩ := ht.made i inst hi h0
    obtain rfl : o' = o := Option.some.inj (ho'.symm.trans hin)
    exact ⟨inst, hi, hgraph⟩

end Reference

namespace State

open Reference

variable {ref : Reference} {settings : Settings} {s s' : State} {env : Env} {key producer : BoxKey}
  {site : Site}

/-- The current graph has the environment. -/
def In (s : State) (env : Env) : Prop := ∃ i, s.context.current? = some i ∧ EnvOf s.instances i env

theorem In.envOf (h : s.In env) {i : Nat} (hcur : s.context.current? = some i) :
    EnvOf s.instances i env := by
  obtain ⟨j, hj, henv⟩ := h
  obtain rfl : j = i := Option.some.inj (hj.symm.trans hcur)
  exact henv

theorem In.mono (hg : s.Grows s') (h : s.In env) : s'.In env := by
  obtain ⟨i, hcur, henv⟩ := h
  exact ⟨i, by rw [hg.context, hcur], henv.mono hg.instances⟩

theorem site?_eq (ht : CallTree settings ref.material s.instances)
    (h : EnvOf s.instances key.graph env) :
    s.site? key = ((ref.graph env).node? key.node).map (⟨key, ref.graph env, ·⟩) := by
  obtain ⟨inst, hi, hgraph⟩ := h.graph_eq ht
  simp only [site?, instance?, hi, bind, Option.bind_some, hgraph, pure, Option.map_eq_bind]
  rfl

theorem producer?_eq (ht : CallTree settings ref.material s.instances)
    (h : EnvOf s.instances key.graph env) :
    s.producer? key =
      ((ref.graph env).producer? key.node key.box).map fun p => ⟨key.graph, p.1, p.2⟩ := by
  obtain ⟨inst, hi, hgraph⟩ := h.graph_eq ht
  simp only [producer?, box?, instance?, hi, Option.bind_some, hgraph, Graph.producer?]
  cases (ref.graph env).box? key.node key.box with
  | none => rfl
  | some b =>
    rw [Option.bind_some, Option.bind_some, Option.map_map]
    rfl

end State

/-! ### Agreement -/

theorem State.finish_diagnostics (s : State) (key : BoxKey) (v : Value Local) :
    (s.finish key v).diagnostics = s.diagnostics := by
  unfold State.finish State.remember
  dsimp only
  split
  · split <;> rfl
  · rfl

/-- With enough fuel, the computation has the value, its locals spelled out. -/
def Reference.Gives (w : Writer) (n : Nat) (v : Value Local) (f : Nat → Option (Value Tree)) :
    Prop :=
  ∃ fuel t, f fuel = some t ∧ (CodeRelation.expanding w.tree).Values n v t

/-- No interpolant was claimed, and what is remembered of a box is its value in the reference. -/
structure State.Agrees (ref : Reference) (w : Writer) (s : State) : Prop where
  slots : s.slots = []
  memory : ∀ entry ∈ s.memory, ∃ env, Reference.EnvOf s.instances entry.1.graph env ∧
    Reference.Gives w s.writer.nextLocal entry.2 fun fuel =>
      ref.output fuel env entry.1.node entry.1.box

namespace State.Agrees

open Reference

variable {ref : Reference} {settings : Settings} {w : Writer} {s s' : State} {env : Env}
  {key : BoxKey} {v : Value Local}

theorem mono (hi : s.instances <+: s'.instances) (hn : s.writer.nextLocal ≤ s'.writer.nextLocal)
    (hslots : s'.slots = s.slots) (hm : s'.memory = s.memory) (h : s.Agrees ref w) :
    s'.Agrees ref w := by
  refine ⟨hslots.trans h.slots, fun entry he => ?_⟩
  rw [hm] at he
  obtain ⟨env, henv, fuel, t, ht, hv⟩ := h.memory entry he
  exact ⟨env, henv.mono hi, fuel, t, ht, hv.mono hn⟩

theorem withContext (c : CallContext) (h : s.Agrees ref w) :
    { s with context := c }.Agrees ref w :=
  ⟨h.slots, h.memory⟩

theorem remembered (h : s.Agrees ref w) (ht : CallTree settings ref.material s.instances)
    (henv : EnvOf s.instances key.graph env) (hm : s.remembered? key = some v) :
    Gives w s.writer.nextLocal v fun fuel => ref.output fuel env key.node key.box := by
  obtain ⟨env', henv', hv⟩ := h.memory _ (mem_of_remembered? hm)
  obtain rfl := henv.unique ht.origin?_root henv'
  exact hv

theorem finish (h : s.Agrees ref w) (henv : EnvOf s.instances key.graph env)
    (hv : Gives w s.writer.nextLocal v fun fuel => ref.output fuel env key.node key.box) :
    (s.finish key v).Agrees ref w := by
  have hmemory := forall_mem_finish h.memory ⟨env, henv, hv⟩
  obtain ⟨memory, hf⟩ := s.finish_eq key v
  rw [hf] at hmemory ⊢
  exact ⟨h.slots, hmemory⟩

theorem made {site : Site} {function : MaterialFunction} {graph : Nat} (h : s.Agrees ref w)
    (hi : (s.ask site.node.callee).instantiate site function = (graph, s')) :
    s'.Agrees ref w := by
  have hsame := SameCode.instantiate hi
  have hslots : s'.slots = s.slots := by
    unfold State.instantiate at hi
    split at hi <;> cases hi <;> rfl
  exact h.mono (s.grows_made hi).instances (s.grows_made hi).nextLocal_le hslots hsame.memory

/-- A request of a recipe keeps the agreement, and what is left of the recipe has the same result in
the reference. -/
theorem effect {r r' : Recipe Local (Value Local)} {r₂ : Recipe Tree (Value Tree)}
    (h : s.Agrees ref w) (hw : w.WellScoped)
    (hr : r.Related (CodeRelation.expanding w.tree) (CodeRelation.expanding w.tree).Values
      s.writer.nextLocal r₂)
    (he : r.effect? settings key s = some (r', s')) (hd : s'.diagnostics = [])
    (hp : s'.writer.statements <+: w.statements) :
    s'.Agrees ref w ∧ ∃ r₂', (∀ operand, interpret operand r₂ = interpret operand r₂') ∧
      r'.Related (CodeRelation.expanding w.tree) (CodeRelation.expanding w.tree).Values
        s'.writer.nextLocal r₂' := by
  have hg := s.grows_effect he
  cases hr with
  | done => cases he
  | operand => cases he
  | @declare _ type init init' next next' hi hn =>
    cases he
    refine ⟨h.mono hg.instances hg.nextLocal_le rfl rfl,
      next' (.expr type [.ref (.written type init')]), fun _ => rfl, ?_⟩
    have hnext : (s.writer.declare type init).2.nextLocal = s.writer.nextLocal + 1 :=
      Writer.nextLocal_push _ _
    rw [hnext]
    refine hn _ _ (.expr ⟨fun r hr => ?_, ?_⟩)
    · obtain rfl : r = s.writer.nextLocal := by simpa using hr
      exact Nat.lt_succ_self _
    · simp [Code.expand, Atom.expand, Writer.tree_declare hp hw hi]
  | block hf => exact hf.elim
  | @comment _ text _ next' hn =>
    cases he
    refine ⟨h.mono hg.instances hg.nextLocal_le ?_ ?_, next', fun _ => rfl, ?_⟩
    · split <;> rfl
    · split <;> rfl
    · split
      · have hnext : (s.writer.push (.comment text)).nextLocal = s.writer.nextLocal :=
          Writer.nextLocal_push _ _
        rwa [hnext]
      · exact hn
  | report =>
    cases he
    exact absurd hd (s.report_diagnostics_ne_nil key _)
  | @use _ _ _ next' hn =>
    cases he
    exact ⟨h.mono hg.instances hg.nextLocal_le rfl rfl, next', fun _ => rfl, hn⟩
  | @sample _ texture _ next' hn =>
    cases he
    have hsame := SameCode.sample s texture
    refine ⟨h.mono hg.instances hg.nextLocal_le ?_ hsame.memory, next', fun _ => rfl, ?_⟩
    · unfold State.sample
      split <;> rfl
    · rwa [hsame.writer]
  | remember hf => exact hf.elim
  | claim hf => exact hf.elim

end State.Agrees

/-! ### Evaluation -/

namespace Reference

/-- A reference for evaluations under the settings: it has the only library, and no node writes code
of its own or claims interpolants. -/
structure Covers (ref : Reference) (settings : Settings) : Prop where
  resolver : settings.resolver = ⟨[ref.library]⟩
  domain : settings.domain = ref.domain
  material : ∀ node ∈ ref.material.nodes, node.kind.isPure = true
  functions : ∀ f ∈ Engine.functions settings.resolver, ∀ node ∈ f.graph.nodes,
    node.kind.isPure = true

/-- What a task computes in the reference. -/
inductive Mirrors (ref : Reference) (w : Writer) (env : Env) (s : State) :
    Task → (Nat → Option (Value Tree)) → Prop
  | box (key : BoxKey) :
      Mirrors ref w env s (.box key) fun fuel => ref.output fuel env key.node key.box
  | node (site : Site) :
      Mirrors ref w env s (.node site) fun fuel => ref.process (ref.output fuel) env site
  | recipe {key : BoxKey} {r : Recipe Local (Value Local)} {r' : Recipe Tree (Value Tree)}
      (hr : r.Related (CodeRelation.expanding w.tree) (CodeRelation.expanding w.tree).Values
        s.writer.nextLocal r') :
      Mirrors ref w env s (.recipe key r) fun fuel =>
        interpret (ref.operand (ref.output fuel) env key.node) r'

variable {ref : Reference} {settings : Settings} {w : Writer} {s s' : State} {env caller : Env}
  {site : Site} {key : BoxKey} {v : Value Local} {n : Nat} {f f' : Nat → Option (Value Tree)}

theorem Gives.map (h : Gives w n v f)
    (hf : ∀ fuel t, f fuel = some t → ∃ fuel', f' fuel' = some t) : Gives w n v f' := by
  obtain ⟨fuel, t, ht, hv⟩ := h
  obtain ⟨fuel', ht'⟩ := hf fuel t ht
  exact ⟨fuel', t, ht', hv⟩

theorem gives_zero (w : Writer) (n : Nat) (type : ValueType) (hf : f 1 = some (.zero type)) :
    Gives w n (.zero type) f :=
  ⟨1, _, hf, .zero type⟩

/-! Operands -/

theorem operand_none (e : Evaluator) (hp : s.producer? key = none)
    (ht : CallTree settings ref.material s.instances) (henv : EnvOf s.instances key.graph env) :
    ref.operand e env key.node key.box = some none := by
  rw [State.producer?_eq ht henv, Option.map_eq_none_iff] at hp
  rw [operand, hp]

theorem operand_some {e : Evaluator} {producer : BoxKey} {t : Value Tree}
    (hp : s.producer? key = some producer) (ht : CallTree settings ref.material s.instances)
    (henv : EnvOf s.instances key.graph env) (hv : e env producer.node producer.box = some t) :
    ref.operand e env key.node key.box = some (some t) := by
  rw [State.producer?_eq ht henv] at hp
  obtain ⟨⟨n, box⟩, hq, rfl⟩ := Option.map_eq_some_iff.mp hp
  rw [operand, hq]
  exact congrArg (Option.map some) hv

/-- An operand and what is left of the recipe are evaluated together with the larger fuel. -/
theorem interpret_connected {producer : BoxKey} {box : BoxId} {fuel₁ fuel₂ : Nat}
    {next : Option (Value Tree) → Recipe Tree (Value Tree)} {t₁ t₂ : Value Tree}
    (hp : s.producer? (key.sibling box) = some producer)
    (ht : CallTree settings ref.material s.instances) (henv : EnvOf s.instances key.graph env)
    (h₁ : ref.output fuel₁ env producer.node producer.box = some t₁)
    (h₂ : interpret (ref.operand (ref.output fuel₂) env key.node) (next (some t₁)) = some t₂) :
    interpret (ref.operand (ref.output (max fuel₁ fuel₂)) env key.node) (.operand box next) =
      some t₂ := by
  have hmore := output_extends ref (Nat.le_max_left fuel₁ fuel₂) _ _ _ _ h₁
  refine Option.bind_eq_some_iff.mpr ⟨some t₁, operand_some hp ht henv hmore, ?_⟩
  exact (output_extends ref (Nat.le_max_right fuel₁ fuel₂)).interpret h₂

/-- A box of the current graph is evaluated like the node it belongs to. -/
theorem output_succ (ht : CallTree settings ref.material s.instances)
    (henv : EnvOf s.instances key.graph env) (hsite : s.site? key = some site) (fuel : Nat) :
    ref.output (fuel + 1) env key.node key.box = ref.process (ref.output fuel) env site := by
  rw [State.site?_eq ht henv] at hsite
  obtain ⟨node, hn, rfl⟩ := Option.map_eq_some_iff.mp hsite
  rw [output, hn]
  rfl

/-! Calls and arguments -/

/-- The graph made for a call has the environment of its caller, extended by the call. -/
theorem envOf_made {function : MaterialFunction} {earlier graph : Nat} (hc : ref.Covers settings)
    (hs : s.Sound settings ref.material) (hl : (Task.node site).Located s) (henv : s.In env)
    (hk : site.node.kind = .materialFunction)
    (hload : settings.resolver.load earlier site.node.callee = .ok function)
    (hcall : s.isCalling site.node.callee = false)
    (hi : (s.ask site.node.callee).instantiate site function = (graph, s')) :
    s'.Sound settings ref.material ∧
      EnvOf s'.instances graph (.called env site.key.node function) := by
  obtain ⟨hmade, o, ho, hcaller, hsite, -⟩ := hs.ask.instantiate hl.1 hl.2 hk hload hcall hi
  have hinst := (s.grows_made hi).instances
  have hn := CallTree.node?_mono hinst (State.node?_of_site? hl.2)
  have henv' := (henv.envOf hl.1).mono hinst
  rw [← hcaller, ← hsite] at hn
  rw [← hcaller] at henv'
  refine ⟨hmade, ?_⟩
  rw [← hsite, ← hmade.tree.function_eq hc.resolver ho hn hload]
  exact .called ho henv'

theorem outputNode?_eq {function : MaterialFunction} {graph : Nat}
    (ht : CallTree settings ref.material s.instances)
    (henv : EnvOf s.instances graph (.called env n function)) :
    Engine.outputNode? s site function graph = function.outputNode? site.box := by
  obtain ⟨inst, hi, hgraph⟩ := henv.graph_eq ht
  simp only [Engine.outputNode?, State.instance?, hi, hgraph, MaterialFunction.outputNode?, bind,
    Option.bind_some]
  rfl

/-- In the graph of the latest call, the environment ends with that call. -/
theorem envOf_frame {frame : CallFrame} (hc : ref.Covers settings)
    (hs : s.Sound settings ref.material) (hl : (Task.node site).Located s) (henv : s.In env)
    (hf : s.context.currentFrame? = some frame) :
    ∃ caller, env = .called caller frame.site frame.function ∧
      EnvOf s.instances frame.caller caller := by
  obtain ⟨o, ho, hcaller, hsite, -⟩ := hs.context.currentFrame hl.1 hf
  have hfunction := hs.context.function_eq hc.resolver hs.tree hl.1 hf ho
  rw [hcaller, hsite, hfunction]
  exact (henv.envOf hl.1).of_origin hs.tree.origin?_root ho

theorem argument?_eq (frame : CallFrame) (id : NodeId) :
    frame.argument? id =
      (frame.function.argumentBox? id).map (⟨frame.caller, frame.site, ·⟩) := by
  unfold CallFrame.argument? MaterialFunction.argumentBox?
  dsimp only
  split <;> rfl

end Reference

open Reference State in
/-- An evaluation that reports nothing gives the value of the reference, and what is remembered
agrees with the reference. All locals are looked up in the statements `w` of the finished stage. -/
theorem Runs.agrees {ref : Reference} {settings : Settings} {w : Writer} {t : Task} {s s' : State}
    {v : Value Local} {env : Env} {f : Nat → Option (Value Tree)} (h : Runs settings t s v s')
    (hc : ref.Covers settings) (hw : w.WellScoped) (hs : s.Sound settings ref.material)
    (hl : t.Located s) (hstage : s.stage = ref.stage) (hd : s'.diagnostics = [])
    (hp : s'.writer.statements <+: w.statements) (ha : s.Agrees ref w) (henv : s.In env)
    (hm : ref.Mirrors w env s t f) :
    s'.Agrees ref w ∧ Gives w s'.writer.nextLocal v f := by
  -- rules that report something are excluded by `hd`
  induction h generalizing env f with
  | leaf h =>
    cases h with
    | remembered hmem =>
      cases hm
      exact ⟨ha, ha.remembered hs.tree (henv.envOf hl) hmem⟩
    | absent _ hsite =>
      cases hm
      rw [site?_eq hs.tree (henv.envOf hl), Option.map_eq_none_iff] at hsite
      exact ⟨ha, gives_zero _ _ _ (by rw [output, hsite])⟩
    | unfed hk hload hcall hi ho hfeed =>
      cases hm
      obtain ⟨hmade, henv'⟩ := envOf_made hc hs hl henv hk hload hcall hi
      rw [hc.resolver, Resolver.load_single] at hload
      rw [outputNode?_eq hmade.tree henv'] at ho
      refine ⟨ha.made hi, gives_zero _ _ _ ?_⟩
      exact process_call hk hload ho (operand_none _ hfeed hmade.tree henv')
    | done =>
      cases hm with
      | recipe hr =>
        cases hr with
        | @done _ _ t hv => exact ⟨ha, 0, t, rfl, hv⟩
    | _ => exact absurd hd (report_diagnostics_ne_nil _ _ _)
  | @unary _ s v _ _ h hrun ih =>
    obtain ⟨hs₁, hl₁⟩ := h.sound hs hl
    cases h with
    | @dispatched _ _ site _ s' _ hsite =>
      cases hm
      obtain rfl := key_of_site? hsite
      have henv' := henv.envOf hl
      rw [finish_diagnostics] at hd
      rw [finish_writer] at hp ⊢
      obtain ⟨ha', hv⟩ := ih hs₁ hl₁ hstage hd hp ⟨ha.slots, ha.memory⟩ henv (.node site)
      have hbox : Gives w s'.writer.nextLocal v fun fuel =>
          ref.output fuel env site.key.node site.key.box :=
        hv.map fun fuel t ht => ⟨fuel + 1, (output_succ hs.tree henv' hsite fuel).trans ht⟩
      exact ⟨ha'.finish (henv'.mono hrun.grows.instances) hbox, hbox⟩
    | @plain site _ _ _ hcall hinput =>
      cases hm
      have hpure := hs.tree.forall_node hc.material hc.functions (node?_of_site? hl.2)
      have hr := site.recipe_related (CodeRelation.expanding w.tree) s.writer.nextLocal
        settings.domain s.stage (fun hn => by simp [hpure] at hn) fun _ _ => .inr trivial
      obtain ⟨ha', hv⟩ := ih hs₁ hl₁ hstage hd hp ha henv (.recipe hr)
      refine ⟨ha', hv.map fun fuel t ht => ⟨fuel, ?_⟩⟩
      rw [process_plain hcall hinput, ← hc.domain, ← hstage]
      exact ht
    | @called _ _ _ graph _ _ producer _ _ hk hload hcall hi ho hfeed =>
      cases hm
      obtain ⟨hmade, henv'⟩ := envOf_made hc hs hl henv hk hload hcall hi
      rw [hc.resolver, Resolver.load_single] at hload
      rw [outputNode?_eq hmade.tree henv'] at ho
      obtain ⟨ha', hv⟩ := ih hs₁ hl₁ ((s.grows_made hi).stage.trans hstage) hd hp
        ((ha.made hi).withContext _) ⟨graph, rfl, henv'⟩ (.box producer)
      refine ⟨ha'.withContext _, hv.map fun fuel t ht => ⟨fuel, ?_⟩⟩
      exact process_call hk hload ho (operand_some hfeed hmade.tree henv' ht)
    | @passed _ _ frame _ producer _ _ hk hframe _ hbox hfeed =>
      cases hm
      obtain ⟨caller, rfl, henv'⟩ := envOf_frame hc hs hl henv hframe
      rw [argument?_eq] at hbox
      obtain ⟨b, hb, rfl⟩ := Option.map_eq_some_iff.mp hbox
      have hcur : s.context.inCaller.current? = some frame.caller :=
        hl₁.trans (congrArg some (graph_of_producer? hfeed))
      obtain ⟨ha', hv⟩ := ih hs₁ hl₁ hstage hd hp (ha.withContext _) ⟨_, hcur, henv'⟩
        (.box producer)
      refine ⟨ha'.withContext _, hv.map fun fuel t ht => ⟨fuel, ?_⟩⟩
      exact process_passed hk hb (operand_some hfeed hs.tree henv' ht)
    | @defaulted site _ _ _ _ _ hk hframe _ hbox hfeed =>
      cases hm
      obtain ⟨caller, rfl, henv'⟩ := envOf_frame hc hs hl henv hframe
      rw [argument?_eq] at hbox
      obtain ⟨b, hb, rfl⟩ := Option.map_eq_some_iff.mp hbox
      obtain ⟨ha', hv⟩ := ih hs₁ hl₁ hstage hd hp ha henv (.recipe (.operandOrParam site 1 1))
      refine ⟨ha', hv.map fun fuel t ht => ⟨fuel, ?_⟩⟩
      rw [process_defaulted hk hb (operand_none _ hfeed hs.tree henv')]
      exact ht
    | unconnected hfeed =>
      cases hm with
      | recipe hr =>
        cases hr with
        | operand hn =>
          obtain ⟨ha', hv⟩ := ih hs₁ hl₁ hstage hd hp ha henv
            (.recipe (hn _ _ _ (Nat.le_refl _) .none))
          refine ⟨ha', hv.map fun fuel t ht => ⟨fuel, ?_⟩⟩
          exact Option.bind_eq_some_iff.mpr
            ⟨none, operand_none (ref.output fuel) hfeed hs.tree (henv.envOf hl.1), ht⟩
    | effect he =>
      cases hm with
      | recipe hr =>
        have hg := s.grows_effect he
        obtain ⟨ha₁, r₂, heq, hr₂⟩ := ha.effect hw hr he (hrun.grows.diagnostics_nil hd)
          (hrun.grows.statements.trans hp)
        obtain ⟨ha₂, hv⟩ := ih hs₁ hl₁ (hg.stage.trans hstage) hd hp ha₁ (henv.mono hg)
          (.recipe hr₂)
        exact ⟨ha₂, hv.map fun fuel t ht => ⟨fuel, (heq _).trans ht⟩⟩
  | binary h hrun hrest ih ihn =>
    obtain ⟨hs₁, hl₁⟩ := h.sound_first hs hl
    obtain ⟨hs₂, hl₂⟩ := h.sound_second hl hrun (hrun.sound hs₁ hl₁)
    cases h with
    | @connected _ _ _ _ producer _ _ _ _ hfeed =>
      cases hm with
      | recipe hr =>
        cases hr with
        | operand hn =>
          have hg := hrun.grows
          obtain ⟨ha₁, fuel₁, t₁, ht₁, hv₁⟩ := ih hs₁ hl₁ hstage
            (hrest.grows.diagnostics_nil hd) (hrest.grows.statements.trans hp) ha henv
            (.box producer)
          obtain ⟨ha₂, fuel₂, t₂, ht₂, hv₂⟩ := ihn hs₂ hl₂ (hg.stage.trans hstage) hd hp ha₁
            (henv.mono hg) (.recipe (hn _ _ _ hg.nextLocal_le (.some hv₁)))
          exact ⟨ha₂, max fuel₁ fuel₂, t₂,
            interpret_connected hfeed hs.tree (henv.envOf hl.1) ht₁ ht₂, hv₂⟩

/-! ### Materials -/

theorem Node.namesNoLocals_of_isPure {node : Node} (h : node.kind.isPure = true) :
    node.NamesNoLocals := by
  have hk : node.kind ≠ .customCode := by
    rintro hk
    simp [hk, NodeKind.isPure] at h
  simp [NamesNoLocals, customText?, hk]

theorem Reference.Covers.material_names {ref : Reference} {settings : Settings}
    (h : ref.Covers settings) : ∀ node ∈ ref.material.nodes, node.NamesNoLocals :=
  fun node hn => Node.namesNoLocals_of_isPure (h.material node hn)

theorem Reference.Covers.functions_names {ref : Reference} {settings : Settings}
    (h : ref.Covers settings) :
    ∀ f ∈ Engine.functions settings.resolver, ∀ node ∈ f.graph.nodes, node.NamesNoLocals :=
  fun f hf node hn => Node.namesNoLocals_of_isPure (h.functions f hf node hn)

/-- Between evaluations: locals are well scoped and, unless something was reported, all values that
are remembered agree with the reference, whatever the stage is going to write. -/
structure State.Refines (ref : Reference) (s : State) : Prop where
  wellScoped : s.Scoped
  agrees : s.diagnostics = [] → ∀ w : Writer, w.WellScoped →
    s.writer.statements <+: w.statements → s.Agrees { ref with stage := s.stage } w

namespace State

variable {ref : Reference} {s : State}

theorem refines_ofGraph (ref : Reference) : (ofGraph ref.material).Refines ref :=
  ⟨scoped_ofGraph _, fun _ _ _ _ => ⟨rfl, by simp [ofGraph]⟩⟩

theorem Refines.beginStage (stage : Stage) (h : s.Refines ref) : (s.beginStage stage).Refines ref :=
  ⟨⟨h.wellScoped.writer, by simp [State.beginStage]⟩, fun hd w hw hp =>
    ⟨(h.agrees hd w hw hp).slots, by simp [State.beginStage]⟩⟩

/-- The next stage starts with no statements. -/
theorem Refines.nextStage (stage : Stage) (h : s.Refines ref) :
    (s.takeWriter.2.beginStage stage).Refines ref := by
  refine ⟨⟨Writer.wellScoped_empty, by simp [State.beginStage]⟩, fun hd w hw _ => ?_⟩
  have ha := h.agrees hd s.writer h.wellScoped.writer (List.prefix_refl _)
  exact ⟨ha.slots, by simp [State.beginStage]⟩

end State

/-- Unless something was reported, the value is that of the parameter in the reference. -/
def Parameter.Refined (ref : Reference) (output : Nat) (p : Parameter) (v : Value Local)
    (s : State) : Prop :=
  s.diagnostics = [] → ∀ w : Writer, w.WellScoped → s.writer.statements <+: w.statements →
    Reference.Gives w s.writer.nextLocal v fun fuel =>
      Reference.parameter { ref with stage := s.stage } fuel output p

namespace Generator

open Reference

variable {ref : Reference} {settings : Settings} {s s' : State} {t : Task} {v : Value Local}
  {f : Nat → Option (Value Tree)}

/-- A single evaluation in the material graph. -/
theorem refines_runs (hc : ref.Covers settings) (hs : s.Idle settings ref.material)
    (hP : s.Refines ref) (hl : t.Located s) (hsc : t.Scoped s) (hr : Runs settings t s v s')
    (hm : ∀ w, Mirrors { ref with stage := s.stage } w .material s t f) :
    s'.Refines ref ∧ (s'.diagnostics = [] → ∀ w : Writer, w.WellScoped →
      s'.writer.statements <+: w.statements → Gives w s'.writer.nextLocal v f) := by
  have hg := hr.grows
  have hscoped := hr.scoped hc.material_names hc.functions_names hs.sound hl hP.wellScoped hsc
  have hc' : Covers { ref with stage := s.stage } settings := { hc with }
  have hagrees : s'.diagnostics = [] → ∀ w : Writer, w.WellScoped →
      s'.writer.statements <+: w.statements → s'.Agrees { ref with stage := s.stage } w ∧
        Gives w s'.writer.nextLocal v f := by
    intro hd w hw hp
    have ha := hP.agrees (hg.diagnostics_nil hd) w hw (hg.statements.trans hp)
    exact hr.agrees hc' hw hs.sound hl rfl hd hp ha ⟨0, hs.current?, .material⟩ (hm w)
  refine ⟨⟨hscoped.1, fun hd w hw hp => ?_⟩, fun hd w hw hp => (hagrees hd w hw hp).2⟩
  rw [hg.stage]
  exact (hagrees hd w hw hp).1

theorem refines_of_request (hc : ref.Covers settings) (request : Request)
    (hs : s.Idle settings ref.material) (hr : Runs settings (request.task s) s v s')
    (hP : s.Refines ref) : s'.Refines ref := by
  have hl := request.task_located hs
  cases request with
  | output node box => exact (refines_runs hc hs hP hl trivial hr fun _ => .box _).1
  | input node box =>
    exact (refines_runs hc hs hP hl (Recipe.Related.operandOr box fun _ => .zero _) hr
      fun _ => .recipe (.operandOr box fun _ => .zero _)).1

theorem keeps_refines (hc : ref.Covers settings) (output : Nat) :
    Keeps settings ref.material output (State.Refines ref) (Parameter.Refined ref output)
      (fun _ s => s.diagnostics ≠ []) where
  stable p v s s' hg hv hd w hw hp := by
    rw [hg.stage]
    obtain ⟨fuel, t, ht, hv⟩ := hv (hg.diagnostics_nil hd) w hw (hg.statements.trans hp)
    exact ⟨fuel, t, ht, hv.mono hg.nextLocal_le⟩
  stable' v s s' hg hd hnil := hd (hg.diagnostics_nil hnil)
  onParameter p s v s' hs hP hr := by
    obtain ⟨hP', hv⟩ := refines_runs hc hs hP (p.located hs output)
      (.feed _ _ fun _ => .literal _) hr fun _ => .recipe (.feed _ _ fun _ => .literal _)
    refine ⟨hP', fun hd w hw hp => ?_⟩
    rw [hr.grows.stage]
    exact hv hd w hw hp
  onInterpolant slot s v s' hslot hs hP hr := by
    obtain ⟨hscoped, -⟩ := (keeps_scoped hc.material_names hc.functions_names output).onInterpolant
      slot s v s' hslot hs hP.wellScoped hr
    -- without reports there are no slots
    have hd : s'.diagnostics ≠ [] := by
      intro hd
      have ha := hP.agrees (hr.grows.diagnostics_nil hd) s.writer hP.wellScoped.writer
        (List.prefix_refl _)
      rw [ha.slots] at hslot
      cases hslot
    exact ⟨⟨hscoped, fun hnil => absurd hnil hd⟩, hd⟩

end Generator

/-- The outputs of the stage are the values that the reference has for the parameters of the stage,
once every local is spelled out from its declaration among the statements of the stage. -/
structure StageSource.Matches (stage : StageSource) (w : Writer) (ref : Reference)
    (output : Nat) : Prop where
  text : stage.TextOf w
  statements : w.WellScoped
  outputs : List.Forall₂ (fun p o => o.target = p.target ∧ ∃ t, o.value.expand w.tree = some t ∧
      ∃ least, ∀ fuel, least ≤ fuel → ref.parameter fuel output p = some t)
    (Parameter.inStage ref.stage) stage.outputs

theorem StageSource.matches_ofWriter {ref : Reference} {output : Nat} {stage : Stage} {s : State}
    {outputs : List StageOutput} (hsc : s.Scoped) (hd : s.diagnostics = []) (hst : s.stage = stage)
    (ho : Generator.Outputs (Parameter.Refined ref output) stage s outputs) :
    (ofWriter s.writer outputs).Matches s.writer { ref with stage } output := by
  subst hst
  refine ⟨textOf_ofWriter s.writer outputs, hsc.writer, ho.imp fun p o h => ⟨h.1, ?_⟩⟩
  obtain ⟨least, t, ht, hv⟩ := h.2 hd s.writer hsc.writer (List.prefix_refl _)
  refine ⟨t, hv.expand, least, fun fuel hle => ?_⟩
  exact (Reference.output_extends _ hle).interpret ht

/-- A material without diagnostics is the one that the reference evaluator describes: for every
graph and library whose nodes write no code of their own and claim no interpolants, in every domain
and configuration and after any requests. -/
theorem generate_matches_reference (g : Graph) (domain : Domain) (library : Library)
    (config : Config) (requests : List Request)
    (hg : ∀ node ∈ g.nodes, node.kind.isPure = true)
    (hf : ∀ f ∈ Engine.functions ⟨[library]⟩, ∀ node ∈ f.graph.nodes, node.kind.isPure = true) :
    let gen := ((Generator.new g domain ⟨[library]⟩).withConfig config).after requests
    ∀ m, gen.generate.1 = .ok m → m.diagnostics = [] →
      ∃ output pixel vertex, g.findKind? .materialOutput = some output ∧
        gen.written = some (pixel, vertex) ∧
        m.pixel.Matches pixel ⟨g, library, domain, .pixel⟩ output ∧
        m.vertex.Matches vertex ⟨g, library, domain, .vertex⟩ output := by
  intro gen m hm hd
  have hc : Reference.Covers ⟨g, library, domain, .pixel⟩
      ((Generator.new g domain ⟨[library]⟩).withConfig config).settings := ⟨rfl, rfl, hg, hf⟩
  obtain ⟨output, s₁, s₂, pixel, vertex, interpolants, ho, hw, rfl, hP₁, hst₁, hout₁, hP₂, hst₂,
    hout₂, hint, hdiag⟩ := Generator.generate_keeps rfl (State.refines_ofGraph _)
      (fun request _ _ _ => Generator.refines_of_request hc request) (Generator.keeps_refines hc)
      (fun _ => State.Refines.beginStage .pixel) (fun _ => State.Refines.nextStage .vertex) hm
  have hd₁ : s₁.diagnostics = [] := List.prefix_nil.mp (hd ▸ hdiag)
  obtain rfl : interpolants = [] := List.eq_nil_iff_forall_not_mem.mpr fun o hmem => hint o hmem hd
  rw [List.append_nil]
  exact ⟨output, s₁.writer, s₂.writer, ho, hw,
    StageSource.matches_ofWriter hP₁.wellScoped hd₁ hst₁ hout₁,
    StageSource.matches_ofWriter hP₂.wellScoped hd hst₂ hout₂⟩

theorem doubled_matches_reference :
    let library : Library := ⟨[.loaded doubling]⟩
    let gen := ((Generator.new doubled .surface ⟨[library]⟩).withConfig {}).after [.input 0 0]
    ∃ m output pixel vertex, gen.generate.1 = .ok m ∧ m.diagnostics = [] ∧
      gen.written = some (pixel, vertex) ∧
      m.pixel.Matches pixel ⟨doubled, library, .surface, .pixel⟩ output ∧
      m.vertex.Matches vertex ⟨doubled, library, .surface, .vertex⟩ output := by
  intro library gen
  have ho : gen.material.findKind? .materialOutput = some 0 := by decide +kernel
  have hm := congrArg Prod.fst (Generator.generate_eq ho)
  have hd : (Generator.stages gen.evaluator 0 gen.state).1.diagnostics = [] := by decide +kernel
  obtain ⟨output, pixel, vertex, -, hw, hpixel, hvertex⟩ := generate_matches_reference doubled
    .surface library {} [.input 0 0] (by decide) (by decide) _ hm hd
  exact ⟨_, output, pixel, vertex, hm, hd, hw, hpixel, hvertex⟩

end ShaderGraph
