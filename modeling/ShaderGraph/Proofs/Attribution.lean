import ShaderGraph.Proofs.Construction
import ShaderGraph.Proofs.Slots
import ShaderGraph.Proofs.Throughout
import ShaderGraph.Proofs.Twins

/-! Diagnostics name their place. The call path of a diagnostic leads from the material graph to one
graph, that of the function it names, and the node it names is a node there. No two graphs have the
same call path, so what is reported at different nodes is different, and nothing is reported
twice. -/

namespace ShaderGraph

/-! ### Call paths -/

namespace CallTree

variable {settings : Settings} {g : Graph} {table : List Instance} {i j n n' : Nat} {o : Origin}
  {node node' : Node}

theorem callPath_of_origin? (h : origin? table i = some o) : callPath table i = o.callPath := by
  rw [callPath, h]
  rfl

theorem callPath_of_root (h : origin? table i = none) : callPath table i = [] := by
  rw [callPath, h]
  rfl

theorem Named.callPath_eq_nil_iff (h : Named table) :
    callPath table i = [] ↔ origin? table i = none := by
  cases ho : origin? table i with
  | none => simp [callPath_of_root ho]
  | some o =>
    obtain ⟨node, -, hpath⟩ := h i o ho
    simp [callPath_of_origin? ho, hpath]

/-- Only the material graph was made for no call. -/
theorem eq_zero_of_origin? (ht : CallTree settings g table) (hi : i < table.length)
    (h : origin? table i = none) : i = 0 := by
  by_contra h0
  obtain ⟨o, ho⟩ := ht.exists_origin? hi h0
  simp [h] at ho

/-- The nodes of a graph are told apart by their numbers. -/
theorem eq_of_id_eq (hids : ∀ inst ∈ table, inst.graph.ids.Nodup)
    (hn : node? table i n = some node) (hn' : node? table i n' = some node')
    (h : node.id = node'.id) : n = n' := by
  obtain ⟨inst, hi, hnode⟩ := Option.bind_eq_some_iff.mp hn
  obtain ⟨inst', hi', hnode'⟩ := Option.bind_eq_some_iff.mp hn'
  obtain rfl : inst = inst' := Option.some.inj (hi.symm.trans hi')
  have hid : inst.graph.ids[n]? = some node.id := by
    rw [Graph.ids, List.getElem?_map]
    exact congrArg (Option.map Node.id) hnode
  have hid' : inst.graph.ids[n']? = some node'.id := by
    rw [Graph.ids, List.getElem?_map]
    exact congrArg (Option.map Node.id) hnode'
  have hlt := (List.getElem?_eq_some_iff.mp hid).1
  refine (List.getElem?_inj hlt (hids inst (List.mem_of_getElem? hi))).mp ?_
  rw [hid, hid', h]

/-- Graphs with the same call path are the same. -/
theorem callPath_inj (ht : CallTree settings g table) (hnamed : Named table)
    (hids : ∀ inst ∈ table, inst.graph.ids.Nodup) (hi : i < table.length) (hj : j < table.length)
    (h : callPath table i = callPath table j) : i = j := by
  -- along the callers, whose paths are shorter by the call node
  induction i using Nat.strongRecOn generalizing j with
  | _ i ih =>
    cases ho : origin? table i with
    | none =>
      rw [callPath_of_root ho, eq_comm, hnamed.callPath_eq_nil_iff] at h
      rw [ht.eq_zero_of_origin? hi ho, ht.eq_zero_of_origin? hj h]
    | some o =>
      cases ho' : origin? table j with
      | none =>
        rw [callPath_of_root ho', hnamed.callPath_eq_nil_iff, ho] at h
        cases h
      | some o' =>
        obtain ⟨node, hn, hpath⟩ := hnamed i o ho
        obtain ⟨node', hn', hpath'⟩ := hnamed j o' ho'
        rw [callPath_of_origin? ho, callPath_of_origin? ho', hpath, hpath'] at h
        obtain ⟨hcallers, hid⟩ := List.append_singleton_inj.mp h
        have hlt := (ht.caller i o ho).1
        have hcaller := ih o.caller hlt (lt_of_node? hn) (lt_of_node? hn') hcallers
        rw [hcaller] at hn
        exact ht.once i j o o' ho ho' hcaller (eq_of_id_eq hids hn hn' hid)

end CallTree

namespace State

open CallTree

/-- Following call nodes from the material graph: each number is that of a call node in the graph
reached so far, and the graph made for that call comes next. -/
inductive Leads (s : State) : List NodeId → Nat → Prop
  | root : s.Leads [] 0
  | call {path i n node j} (h : s.Leads path i) (hn : node? s.instances i n = some node)
      (hk : node.kind = .materialFunction) (hj : s.instanceOf? i n = some j) :
      s.Leads (path ++ [node.id]) j

variable {settings : Settings} {g : Graph} {s s' : State} {key key' : BoxKey} {cause : Cause}
  {i j : Nat} {path : List NodeId} {site : Site}

/-- The call path of a graph leads to it. -/
theorem leads_callPath (ht : CallTree settings g s.instances) (hnamed : Named s.instances)
    (hi : i < s.instances.length) : s.Leads (callPath s.instances i) i := by
  induction i using Nat.strongRecOn with
  | _ i ih =>
    cases ho : origin? s.instances i with
    | none =>
      obtain rfl := ht.eq_zero_of_origin? hi ho
      rw [callPath_of_root ho]
      exact .root
    | some o =>
      obtain ⟨hlt, node, hn, hk, -⟩ := ht.caller i o ho
      obtain ⟨node', hn', hpath⟩ := hnamed i o ho
      obtain rfl : node = node' := Option.some.inj (hn.symm.trans hn')
      rw [callPath_of_origin? ho, hpath]
      exact .call (ih o.caller hlt (lt_of_node? hn)) hn hk (ht.instanceOf?_eq ho)

/-- A path leads to no graph but the one whose call path it is. -/
theorem Leads.callPath_eq (ht : CallTree settings g s.instances) (hnamed : Named s.instances)
    (h : s.Leads path i) : i < s.instances.length ∧ callPath s.instances i = path := by
  induction h with
  | root => exact ⟨(List.getElem?_eq_some_iff.mp ht.root).1, callPath_of_root ht.origin?_root⟩
  | @call path i n node j _ hn _ hj ih =>
    obtain ⟨o, ho, rfl, rfl⟩ := instanceOf?_some hj
    obtain ⟨node', hn', hpath⟩ := hnamed j o ho
    obtain rfl : node = node' := Option.some.inj (hn.symm.trans hn')
    exact ⟨lt_of_origin? ho, by rw [callPath_of_origin? ho, hpath, ih.2]⟩

/-! ### Diagnostics and their places -/

theorem diagnose_congr (h : s'.instances = s.instances) (key : BoxKey) (cause : Cause) :
    s'.diagnose key cause = s.diagnose key cause := by
  unfold diagnose instance?
  rw [h]

theorem diagnose_mono (hp : s.instances <+: s'.instances) (hk : key.graph < s.instances.length)
    (cause : Cause) : s.diagnose key cause = s'.diagnose key cause := by
  rw [diagnose_eq hp hk]
  exact diagnose_congr rfl key cause

/-- Diagnostics of different nodes are different. -/
theorem diagnose_inj {node node' : Node} {cause' : Cause} (ht : CallTree settings g s.instances)
    (hnamed : Named s.instances) (hids : ∀ inst ∈ s.instances, inst.graph.ids.Nodup)
    (hn : node? s.instances key.graph key.node = some node)
    (hn' : node? s.instances key'.graph key'.node = some node')
    (h : s.diagnose key cause = s.diagnose key' cause') :
    key.graph = key'.graph ∧ key.node = key'.node := by
  have hgraph : key.graph = key'.graph :=
    ht.callPath_inj hnamed hids (lt_of_node? hn) (lt_of_node? hn') (congrArg Diagnostic.callPath h)
  have hid : node.id = node'.id := by
    rw [← diagnose_node hn cause, ← diagnose_node hn' cause', h]
  rw [hgraph] at hn
  exact ⟨hgraph, eq_of_id_eq hids hn hn' hid⟩

/-- Every diagnostic has a place where it was found, and none is there twice. Slots, at which
diagnostics may be found later, have places too. -/
structure Attributed (s : State) : Prop where
  nodup : s.diagnostics.Nodup
  named : Named s.instances
  placed : ∀ d ∈ s.diagnostics, ∃ key node,
    node? s.instances key.graph key.node = some node ∧ d = s.diagnose key d.cause
  slots : ∀ slot ∈ s.slots, ∃ node,
    node? s.instances slot.node.graph slot.node.node = some node

namespace Attributed

theorem ofGraph (g : Graph) : (State.ofGraph g).Attributed :=
  ⟨List.nodup_nil, named_single g, by simp [State.ofGraph], by simp [State.ofGraph]⟩

/-- More graphs and slots, and the same diagnostics. -/
theorem extend (h : s.Attributed) (hp : s.instances <+: s'.instances)
    (hnamed : Named s'.instances) (hd : s'.diagnostics = s.diagnostics)
    (hs : ∀ slot ∈ s'.slots, slot ∈ s.slots ∨ ∃ node,
      node? s'.instances slot.node.graph slot.node.node = some node) : s'.Attributed := by
  refine ⟨hd ▸ h.nodup, hnamed, fun d hmem => ?_, fun slot hmem => ?_⟩
  · rw [hd] at hmem
    obtain ⟨key, node, hn, hkey⟩ := h.placed d hmem
    exact ⟨key, node, node?_mono hp hn, hkey.trans (diagnose_mono hp (lt_of_node? hn) _)⟩
  · rcases hs slot hmem with hmem | hn
    · obtain ⟨node, hn⟩ := h.slots slot hmem
      exact ⟨node, node?_mono hp hn⟩
    · exact hn

/-- Changes elsewhere. -/
theorem of_eq (h : s.Attributed) (hi : s'.instances = s.instances)
    (hd : s'.diagnostics = s.diagnostics) (hs : s'.slots = s.slots) : s'.Attributed :=
  h.extend (hi ▸ List.prefix_refl _) (hi ▸ h.named) hd fun _ hmem => .inl (hs ▸ hmem)

theorem report {node : Node} (h : s.Attributed)
    (hn : node? s.instances key.graph key.node = some node) (cause : Cause) :
    (s.report key cause).Attributed := by
  unfold State.report
  dsimp only
  split
  next => exact h
  next hnew =>
    refine ⟨?_, h.named, fun d hd => ?_, h.slots⟩
    · refine List.nodup_append.mpr ⟨h.nodup, List.pairwise_singleton _ _, ?_⟩
      simp only [List.mem_singleton, forall_eq]
      rintro d hd rfl
      exact hnew hd
    · rcases List.mem_append.mp hd with hd | hd
      · exact h.placed d hd
      · obtain rfl := List.mem_singleton.mp hd
        exact ⟨key, node, hn, rfl⟩

theorem remember (h : s.Attributed) (key : BoxKey) (value : Option (Value Local)) :
    (s.remember key value).Attributed := by
  obtain ⟨memory, hm⟩ := s.remember_eq key value
  rw [hm]
  exact h.of_eq rfl rfl rfl

theorem finish (h : s.Attributed) (key : BoxKey) (v : Value Local) :
    (s.finish key v).Attributed := by
  obtain ⟨memory, hf⟩ := s.finish_eq key v
  rw [hf]
  exact h.of_eq rfl rfl rfl

/-- A graph that is made gets the path of its caller and the number of the call node. -/
theorem instantiate {function : MaterialFunction} {graph : Nat} (h : s.Attributed)
    (hs : s.site? site.key = some site) (hi : s.instantiate site function = (graph, s')) :
    s'.Attributed := by
  unfold State.instantiate at hi
  split at hi
  next =>
    cases hi
    exact h
  next =>
    cases hi
    exact h.extend (List.prefix_append _ _) (h.named.append (node?_of_site? hs) _ _) rfl
      fun _ hmem => .inl hmem

theorem effect {r r' : Recipe Local (Value Local)} {node : Node} (h : s.Attributed)
    (hn : node? s.instances key.graph key.node = some node)
    (he : r.effect? settings key s = some (r', s')) : s'.Attributed := by
  cases r with
  | done => cases he
  | operand => cases he
  | declare | block | use =>
    cases he
    exact h.of_eq rfl rfl rfl
  | comment =>
    cases he
    split
    · exact h.of_eq rfl rfl rfl
    · exact h
  | report cause =>
    cases he
    exact h.report hn cause
  | sample texture =>
    cases he
    unfold State.sample
    split
    · exact h
    · exact h.of_eq rfl rfl rfl
  | remember box value =>
    cases he
    exact h.remember _ value
  | claim input =>
    cases he
    unfold State.claim
    split
    · exact h
    · split
      · exact h
      · refine h.extend (List.prefix_refl _) h.named rfl fun slot hmem => ?_
        rcases List.mem_append.mp hmem with hmem | hmem
        · exact .inl hmem
        · obtain rfl := List.mem_singleton.mp hmem
          exact .inr ⟨node, hn⟩

end Attributed

end State

/-! ### All states of a run -/

open CallTree

/-- The recipe asks for one box at most, and does nothing else. -/
def Recipe.OnlyAsks (r : Recipe Local (Value Local)) : Prop :=
  (∃ v, r = done v) ∨ ∃ box next, r = operand box next ∧ ∀ a, ∃ v, next a = done v

theorem Recipe.OnlyAsks.effect? {r : Recipe Local (Value Local)} (h : r.OnlyAsks)
    (settings : Settings) (key : BoxKey) (s : State) : r.effect? settings key s = none := by
  obtain ⟨v, rfl⟩ | ⟨box, next, rfl, -⟩ := h <;> rfl

theorem Recipe.OnlyAsks.next {box : BoxId}
    {next : Option (Value Local) → Recipe Local (Value Local)}
    (h : (operand box next).OnlyAsks) (a : Option (Value Local)) : (next a).OnlyAsks := by
  obtain ⟨v, h⟩ | ⟨_, _, h, hnext⟩ := h
  · cases h
  · cases h
    exact .inl (hnext a)

/-- What is reported on behalf of the task is reported at a node. -/
def Task.Placed (s : State) : Task → Prop
  | recipe key r => r.OnlyAsks ∨ ∃ node, node? s.instances key.graph key.node = some node
  | _ => True

namespace State.Attributed

variable {settings : Settings} {g : Graph} {s s' : State} {site : Site}

theorem ask (h : s.Attributed) (id : AssetId) : (s.ask id).Attributed := h.of_eq rfl rfl rfl

theorem withContext (h : s.Attributed) (c : CallContext) :
    { s with context := c }.Attributed := h.of_eq rfl rfl rfl

theorem made {function : MaterialFunction} {graph : Nat} (h : s.Attributed)
    (hl : (Task.node site).Located s)
    (hi : (s.ask site.node.callee).instantiate site function = (graph, s')) : s'.Attributed := by
  have hs : (s.ask site.node.callee).site? site.key = some site := hl.2
  exact (h.ask _).instantiate hs hi

/-- Every evaluation keeps diagnostics attributed. -/
theorem passes : Evaluation.Passes settings g
    (fun x => x.before.Attributed ∧ x.task.Placed x.before) (fun x => x.after.Attributed) := by
  constructor
  case leaf =>
    rintro x hx hp ⟨h, -⟩
    cases hx with
    | remembered | absent | done => exact h
    | reentered _ hs => exact h.report (node?_of_site? hs) _
    | @notLoaded site s e =>
      have hnoted : ((s.ask site.node.callee).record (.notLoaded e)).Attributed :=
        h.of_eq rfl rfl rfl
      exact hnoted.report (node?_of_site? hp.located.2) _
    | recursive => exact (h.ask _).report (node?_of_site? hp.located.2) _
    | unlisted _ _ _ hi =>
      have hn := node?_mono (grows_made _ hi).instances (node?_of_site? hp.located.2)
      exact (h.made hp.located hi).report hn _
    | unfed _ _ _ hi => exact h.made hp.located hi
    | outside => exact h.report (node?_of_site? hp.located.2) _
    | undeclared => exact h.report (node?_of_site? hp.located.2) _
  case unary =>
    rintro x y hx hp ⟨h, hplaced⟩
    cases hx with
    | dispatched => exact ⟨⟨h.of_eq rfl rfl rfl, trivial⟩, fun _ hy => hy.finish _ _⟩
    | plain => exact ⟨⟨h, .inr ⟨_, node?_of_site? hp.located.2⟩⟩, fun _ hy => hy⟩
    | called _ _ _ hi =>
      exact ⟨⟨(h.made hp.located hi).withContext _, trivial⟩, fun _ hy => hy.withContext _⟩
    | passed => exact ⟨⟨h.withContext _, trivial⟩, fun _ hy => hy.withContext _⟩
    | defaulted => exact ⟨⟨h, .inr ⟨_, node?_of_site? hp.located.2⟩⟩, fun _ hy => hy⟩
    | unconnected => exact ⟨⟨h, hplaced.imp_left fun ho => ho.next none⟩, fun _ hy => hy⟩
    | @effect key s r r' s₁ _ _ he =>
      rcases hplaced with ho | ⟨node, hn⟩
      · simp [ho.effect?] at he
      · refine ⟨⟨h.effect hn he, .inr ⟨node, ?_⟩⟩, fun _ hy => hy⟩
        exact node?_mono (grows_effect s he).instances hn
  case binary =>
    rintro x y z hx - ⟨h, hplaced⟩
    cases hx with
    | connected =>
      refine ⟨⟨h, trivial⟩, fun hrun hy => ⟨hy, ?_⟩, fun hz => hz⟩
      exact hplaced.imp (fun ho => ho.next _) fun ⟨node, hn⟩ =>
        ⟨node, node?_mono hrun.grows.instances hn⟩

theorem throughout : Generator.Throughout settings g Attributed
    (fun x => x.before.Attributed ∧ x.task.Placed x.before) (fun x => x.after.Attributed) := by
  constructor
  case passes => exact passes
  case request =>
    rintro s x request h hx - htask
    refine ⟨hx.of_context h.withContext, ?_⟩
    rw [htask]
    cases request with
    | output => trivial
    | input node box => exact .inl (.inr ⟨box, _, rfl, fun a => ⟨_, rfl⟩⟩)
  case parameter =>
    rintro s x output p ho h hx htask
    refine ⟨hx.of_context h.withContext, ?_⟩
    rw [htask]
    obtain ⟨hlt, -⟩ := List.findIdx?_eq_some_iff_getElem.mp ho
    refine .inr ⟨g.nodes[output], Option.bind_eq_some_iff.mpr ⟨_, hx.sound.tree.root, ?_⟩⟩
    exact List.getElem?_eq_getElem hlt
  case interpolant =>
    rintro s s₁ x slot h hslot hext h₁ hx htask
    refine ⟨hx.of_context h₁.withContext, ?_⟩
    rw [htask]
    obtain ⟨node, hn⟩ := h.slots slot hslot
    exact .inr ⟨node, node?_mono hext.instances hn⟩
  case resume => exact fun s x h => h.withContext s.context
  case beginStage => exact fun _ h => h.of_eq rfl rfl rfl
  case takeWriter => exact fun h => h.of_eq rfl rfl rfl
  case record => exact fun _ h => h.of_eq rfl rfl rfl

end State.Attributed

/-- In every state of every run for graphs that were built, diagnostics are distinct and name their
place. A call path is empty just if no function is named; it leads from the material graph to one
graph only, a copy of the function that is named, which has a node of the number that is named. No
two graphs have the same call path, and diagnostics at different nodes are different. -/
theorem diagnostics_attributed (g : Graph) (domain : Domain) (resolver : Resolver)
    (config : Config) (hg : g.Built) (hf : ∀ f ∈ Engine.functions resolver, f.graph.Built)
    (s : State) (hs : ((Generator.new g domain resolver).withConfig config).Reaches s) :
    s.diagnostics.Nodup ∧
    (∀ d ∈ s.diagnostics, (d.callPath = [] ↔ d.function = none) ∧
      ∃ i inst, s.Leads d.callPath i ∧ (∀ j, s.Leads d.callPath j → j = i) ∧
        s.instances[i]? = some inst ∧ inst.origin.map (·.function.id) = d.function ∧
        (∀ o ∈ inst.origin, inst.graph = o.function.graph) ∧
        ∃ node ∈ inst.graph.nodes, node.id = d.node) ∧
    (∀ i j, i < s.instances.length → j < s.instances.length →
      callPath s.instances i = callPath s.instances j → i = j) ∧
    ∀ key key' node node' cause cause',
      node? s.instances key.graph key.node = some node →
      node? s.instances key'.graph key'.node = some node' →
      s.diagnose key cause = s.diagnose key' cause' →
      key.graph = key'.graph ∧ key.node = key'.node := by
  obtain ⟨hsound, h⟩ := State.Attributed.throughout.reaches
    (Generator.idle_new g domain resolver config) (.ofGraph g) (fun _ h => h.1) (fun _ h => h) hs
  have ht := hsound.tree
  have hids : ∀ inst ∈ s.instances, inst.graph.ids.Nodup :=
    ht.forall_graph (Q := fun g => g.ids.Nodup) hg.nodup_ids fun f hmem => (hf f hmem).nodup_ids
  have hinj := fun i j hi hj hpath => ht.callPath_inj (i := i) (j := j) h.named hids hi hj hpath
  refine ⟨h.nodup, fun d hd => ?_, hinj, ?_⟩
  · obtain ⟨key, node, hn, hkey⟩ := h.placed d hd
    obtain ⟨inst, hi, hnode⟩ := Option.bind_eq_some_iff.mp hn
    have hlt := lt_of_node? hn
    have hpath : d.callPath = callPath s.instances key.graph := by rw [hkey]; rfl
    have hfunction : d.function = inst.origin.map (·.function.id) := by
      rw [hkey, State.diagnose_function, origin?, hi]
      rfl
    have hid : d.node = node.id := by rw [hkey, State.diagnose_node hn]
    constructor
    · rw [hpath, h.named.callPath_eq_nil_iff, hfunction, origin?, hi]
      simp
    · refine ⟨key.graph, inst, hpath ▸ State.leads_callPath ht h.named hlt, fun j hj => ?_, hi,
        hfunction.symm, fun o ho => ?_, node, List.mem_of_getElem? hnode, hid.symm⟩
      · obtain ⟨hj, hjpath⟩ := hj.callPath_eq ht h.named
        exact hinj j key.graph hj hlt (hjpath.trans hpath)
      · have hne : key.graph ≠ 0 := by
          intro h0
          rw [h0, ht.root] at hi
          obtain rfl := Option.some.inj hi
          cases ho
        obtain ⟨o', ho', hgraph⟩ := ht.made key.graph inst hi hne
        obtain rfl : o' = o := Option.some.inj (ho'.symm.trans ho)
        exact hgraph
  · intro key key' node node' cause cause' hn hn' heq
    exact State.diagnose_inj ht h.named hids hn hn' heq

/-! ### Two calls of one function -/

/-- A function that calls one that does not exist. -/
def dangling : MaterialFunction where
  id := ⟨5⟩
  graph := Graph.build [.add .materialFunction [.asset ⟨99⟩], .add .functionOutput [],
    .connect 0 16 1 0]
  inputs := []
  outputs := [2]

def danglingTwice : Graph :=
  Graph.build [.add .materialOutput [], .add .materialFunction [.asset dangling.id],
    .add .materialFunction [.asset dangling.id], .connect 1 16 0 0, .connect 2 16 0 2]

/-- The same node of the function is reported for each of the two calls. -/
theorem danglingTwice_attributed :
    let last := (((Generator.new danglingTwice .surface ⟨[⟨[.loaded dangling]⟩]⟩).withConfig
      {}).after []).generate.2.state
    danglingTwice.Built ∧ dangling.graph.Built ∧
      last.diagnostics.map (fun d => (d.function, d.callPath, d.node)) =
        [(some ⟨5⟩, [2], 1), (some ⟨5⟩, [3], 1)] ∧
      last.diagnostics.Nodup ∧ ∀ d ∈ last.diagnostics, ∃ i inst, last.Leads d.callPath i ∧
        last.instances[i]? = some inst ∧ inst.origin.map (·.function.id) = d.function ∧
        ∃ node ∈ inst.graph.nodes, node.id = d.node := by
  have hg : danglingTwice.Built := ⟨_, rfl⟩
  have hf : dangling.graph.Built := ⟨_, rfl⟩
  have hall := diagnostics_attributed danglingTwice .surface ⟨[⟨[.loaded dangling]⟩]⟩ {} hg
    (List.forall_mem_singleton.mpr hf) _ (.generated [])
  have hplaces : (((Generator.new danglingTwice .surface ⟨[⟨[.loaded dangling]⟩]⟩).withConfig
      {}).after []).generate.2.state.diagnostics.map (fun d => (d.function, d.callPath, d.node)) =
        [(some ⟨5⟩, [2], 1), (some ⟨5⟩, [3], 1)] := by decide +kernel
  dsimp only
  generalize (((Generator.new danglingTwice .surface ⟨[⟨[.loaded dangling]⟩]⟩).withConfig
    {}).after []).generate.2.state = last at hall hplaces ⊢
  obtain ⟨hnodup, hplaced, -⟩ := hall
  refine ⟨hg, hf, hplaces, hnodup, fun d hd => ?_⟩
  obtain ⟨-, i, inst, hlead, -, hi, hfunction, -, hnode⟩ := hplaced d hd
  exact ⟨i, inst, hlead, hi, hfunction, hnode⟩

end ShaderGraph
