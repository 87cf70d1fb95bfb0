import ShaderGraph.Proofs.CallTree
import ShaderGraph.Proofs.Parametricity

/-! What evaluation keeps. Graphs, statements, slots and diagnostics are only ever added, and the
context, the stage and the nodes under way are in the end what they were. The graphs stay a call
tree, every context that is in use, kept in a slot or noted in the trace is a context of it, and
nodes under way at once are different nodes of it. -/

namespace ShaderGraph

namespace State

/-- The state `s'` is reached from `s` by a complete evaluation. -/
structure Grows (s s' : State) : Prop where
  instances : s.instances <+: s'.instances
  statements : s.writer.statements <+: s'.writer.statements
  slots : s.slots <+: s'.slots
  diagnostics : s.diagnostics <+: s'.diagnostics
  context : s'.context = s.context
  active : s'.active = s.active
  stage : s'.stage = s.stage

namespace Grows

variable {s s' s'' : State}

theorem refl (s : State) : s.Grows s :=
  ⟨List.prefix_refl _, List.prefix_refl _, List.prefix_refl _, List.prefix_refl _, rfl, rfl, rfl⟩

theorem trans (h : s.Grows s') (h' : s'.Grows s'') : s.Grows s'' :=
  ⟨h.instances.trans h'.instances, h.statements.trans h'.statements, h.slots.trans h'.slots,
    h.diagnostics.trans h'.diagnostics, h'.context.trans h.context, h'.active.trans h.active,
    h'.stage.trans h.stage⟩

/-- Nothing was reported if nothing is reported in the end. -/
theorem diagnostics_nil (h : s.Grows s') (hd : s'.diagnostics = []) : s.diagnostics = [] :=
  List.prefix_nil.mp (hd ▸ h.diagnostics)

/-- The next local comes no earlier. -/
theorem nextLocal_le (h : s.Grows s') : s.writer.nextLocal ≤ s'.writer.nextLocal :=
  h.statements.sublist.countP_le

end Grows

variable (s : State)

theorem report_diagnostics_ne_nil (key : BoxKey) (cause : Cause) :
    (s.report key cause).diagnostics ≠ [] := by
  unfold report
  dsimp only
  split
  next h => exact List.ne_nil_of_mem h
  next => simp

theorem grows_report (key : BoxKey) (cause : Cause) : s.Grows (s.report key cause) := by
  unfold report
  dsimp only
  split
  · exact .refl s
  · exact { Grows.refl s with diagnostics := List.prefix_append _ _ }

theorem grows_remember (key : BoxKey) (value : Option (Value Local)) :
    s.Grows (s.remember key value) := by
  unfold remember
  split
  · exact { Grows.refl s with }
  · exact .refl s

theorem grows_sample (texture : SceneTexture) : s.Grows (s.sample texture) := by
  unfold sample
  split
  · exact .refl s
  · exact { Grows.refl s with }

theorem grows_push (statement : Statement) :
    s.Grows { s with writer := s.writer.push statement } :=
  { Grows.refl s with statements := List.prefix_append _ _ }

theorem grows_claim (settings : Settings) (key input : BoxKey) :
    s.Grows (s.claim settings key input).2 := by
  unfold claim
  split
  · exact .refl s
  · split
    · exact .refl s
    · exact { Grows.refl s with slots := List.prefix_append _ _ }

theorem grows_instantiate (site : Site) (function : MaterialFunction) :
    s.Grows (s.instantiate site function).2 := by
  unfold instantiate
  split
  · exact .refl s
  · exact { Grows.refl s with instances := List.prefix_append _ _ }

theorem grows_record (e : Event) : s.Grows (s.record e) := { Grows.refl s with }

theorem grows_ask (id : AssetId) : s.Grows (s.ask id) := { Grows.refl s with }

/-- A call asks for its function and gets a graph. -/
theorem grows_made {s' : State} {site : Site} {function : MaterialFunction} {graph : Nat}
    (h : (s.ask site.node.callee).instantiate site function = (graph, s')) : s.Grows s' := by
  have hmade := grows_instantiate (s.ask site.node.callee) site function
  rw [h] at hmade
  exact (s.grows_ask _).trans hmade

theorem grows_effect {α : Type} {settings : Settings} {key : BoxKey} {r r' : Recipe Local α}
    {s₁ : State} (h : r.effect? settings key s = some (r', s₁)) : s.Grows s₁ := by
  cases r with
  | done => cases h
  | operand => cases h
  | declare type init next =>
    cases h
    exact s.grows_push _
  | block body next =>
    cases h
    exact s.grows_push _
  | comment text next =>
    cases h
    split
    · exact s.grows_push _
    · exact .refl s
  | report cause next =>
    cases h
    exact s.grows_report key cause
  | use feature next =>
    cases h
    exact { Grows.refl s with }
  | sample texture next =>
    cases h
    exact s.grows_sample texture
  | remember box value next =>
    cases h
    exact s.grows_remember _ value
  | claim input next =>
    cases h
    exact s.grows_claim settings key _

/-- The node of the box is done, as it was the last to get under way. -/
theorem grows_finish {s' : State} {site : Site} {key : BoxKey} (hk : site.key = key)
    (v : Value Local) (h : (s.start site).Grows s') : s.Grows (s'.finish key v) := by
  subst hk
  have hactive : s'.active.erase (site.key.graph, site.key.node) = s.active := by
    rw [h.active]
    exact List.erase_cons_head _ _
  have hdone : s.Grows { s' with active := s'.active.erase (site.key.graph, site.key.node) } :=
    ⟨h.instances, h.statements, h.slots, h.diagnostics, h.context, hactive, h.stage⟩
  unfold finish
  dsimp only
  split
  · exact hdone.trans (grows_remember _ _ _)
  · exact hdone

/-- Neither the statements nor what is remembered is touched. -/
structure SameCode (s s' : State) : Prop where
  writer : s'.writer = s.writer
  memory : s'.memory = s.memory

namespace SameCode

theorem refl (s : State) : s.SameCode s := ⟨rfl, rfl⟩

theorem trans {s s' s'' : State} (h : s.SameCode s') (h' : s'.SameCode s'') : s.SameCode s'' :=
  ⟨h'.writer.trans h.writer, h'.memory.trans h.memory⟩

theorem record (s : State) (e : Event) : s.SameCode (s.record e) := ⟨rfl, rfl⟩

theorem ask (s : State) (id : AssetId) : s.SameCode (s.ask id) := ⟨rfl, rfl⟩

theorem withContext (s : State) (c : CallContext) : s.SameCode { s with context := c } := ⟨rfl, rfl⟩

theorem report (s : State) (key : BoxKey) (cause : Cause) : s.SameCode (s.report key cause) := by
  unfold State.report
  dsimp only
  split <;> exact ⟨rfl, rfl⟩

theorem sample (s : State) (texture : SceneTexture) : s.SameCode (s.sample texture) := by
  unfold State.sample
  split <;> exact ⟨rfl, rfl⟩

theorem claim (s : State) (settings : Settings) (key input : BoxKey) :
    s.SameCode (s.claim settings key input).2 := by
  unfold State.claim
  split
  · exact ⟨rfl, rfl⟩
  · split <;> exact ⟨rfl, rfl⟩

theorem instantiate {s s' : State} {site : Site} {function : MaterialFunction} {graph : Nat}
    (h : (s.ask site.node.callee).instantiate site function = (graph, s')) : s.SameCode s' := by
  unfold State.instantiate at h
  split at h <;> cases h <;> exact ⟨rfl, rfl⟩

end SameCode

theorem mem_report {s : State} {key : BoxKey} {cause : Cause} {d : Diagnostic}
    (h : d ∈ (s.report key cause).diagnostics) : d ∈ s.diagnostics ∨ d = s.diagnose key cause := by
  unfold report at h
  dsimp only at h
  split at h
  · exact .inl h
  · exact List.mem_append.mp h |>.imp_right List.mem_singleton.mp

theorem diagnose_mem_report (s : State) (key : BoxKey) (cause : Cause) :
    s.diagnose key cause ∈ (s.report key cause).diagnostics := by
  unfold report
  dsimp only
  split
  next h => exact h
  next => exact List.mem_append_right _ List.mem_cons_self

theorem instantiate_diagnostics {s s' : State} {site : Site} {function : MaterialFunction}
    {graph : Nat} (h : s.instantiate site function = (graph, s')) :
    s'.diagnostics = s.diagnostics := by
  unfold instantiate at h
  split at h <;> cases h <;> rfl

theorem remember_eq (s : State) (key : BoxKey) (value : Option (Value Local)) :
    ∃ memory, s.remember key value = { s with memory } := by
  unfold remember
  split
  · exact ⟨_, rfl⟩
  · exact ⟨s.memory, rfl⟩

/-- When a node is done, only what is under way and what is remembered changes. -/
theorem finish_eq (s : State) (key : BoxKey) (v : Value Local) :
    ∃ memory, s.finish key v =
      { s with active := s.active.erase (key.graph, key.node), memory } := by
  unfold finish
  dsimp only
  split
  · exact remember_eq _ key (some v)
  · exact ⟨s.memory, rfl⟩

variable {s : State} {key : BoxKey} {v : Value Local} {P : BoxKey × Value Local → Prop}

theorem mem_of_remembered? (h : s.remembered? key = some v) : (key, v) ∈ s.memory := by
  obtain ⟨l₁, l₂, hl, -⟩ := List.lookup_eq_some_iff.mp h
  simp [hl]

theorem forall_mem_remember {value : Option (Value Local)} (h : ∀ p ∈ s.memory, P p)
    (hv : ∀ v ∈ value, P (key, v)) : ∀ p ∈ (s.remember key value).memory, P p := by
  have hothers : ∀ p ∈ s.memory.filter (·.1 != key), P p := fun p hp =>
    h p (List.mem_of_mem_filter hp)
  unfold remember
  split
  · cases value with
    | none => exact hothers
    | some v => exact List.forall_mem_cons.mpr ⟨hv v rfl, hothers⟩
  · exact h

theorem forall_mem_finish (h : ∀ p ∈ s.memory, P p) (hv : P (key, v)) :
    ∀ p ∈ (s.finish key v).memory, P p := by
  unfold finish
  dsimp only
  split
  · exact forall_mem_remember h (by simpa using hv)
  · exact h

end State

open State in
/-- Without other evaluations nothing is written or remembered. -/
theorem Evaluation.Needs.sameCode {settings : Settings} {x : Evaluation}
    (h : x.Needs settings []) : x.before.SameCode x.after := by
  cases h with
  | remembered | absent | done => exact .refl _
  | reentered | outside | undeclared => exact .report _ _ _
  | notLoaded => exact ((SameCode.ask _ _).trans (.record _ _)).trans (.report _ _ _)
  | recursive => exact (SameCode.ask _ _).trans (.report _ _ _)
  | unlisted _ _ _ hi => exact (SameCode.instantiate hi).trans (.report _ _ _)
  | unfed _ _ _ hi => exact .instantiate hi

open State in
/-- Every evaluation only adds to the state. -/
theorem Runs.grows {settings : Settings} {t : Task} {s s' : State} {v : Value Local}
    (h : Runs settings t s v s') : s.Grows s' := by
  induction h with
  | leaf h =>
    cases h with
    | remembered | absent | done => exact .refl _
    | reentered | outside | undeclared => exact grows_report _ _ _
    | notLoaded => exact ((grows_ask _ _).trans (grows_record _ _)).trans (grows_report _ _ _)
    | recursive => exact (grows_ask _ _).trans (grows_report _ _ _)
    | unlisted _ _ _ hi => exact (grows_made _ hi).trans (grows_report _ _ _)
    | unfed _ _ _ hi => exact grows_made _ hi
  | unary h _ ih =>
    cases h with
    | dispatched _ hs => exact grows_finish _ (key_of_site? hs) _ ih
    | plain | defaulted | unconnected => exact ih
    | called _ _ _ hi =>
      refine (grows_made _ hi).trans ⟨ih.instances, ih.statements, ih.slots, ih.diagnostics, ?_,
        ih.active, ih.stage⟩
      exact (congrArg CallContext.leave ih.context).trans (CallContext.leave_enter _ _)
    | passed _ hf =>
      refine ⟨ih.instances, ih.statements, ih.slots, ih.diagnostics, ?_, ih.active, ih.stage⟩
      obtain ⟨i, hcur, -⟩ := Option.bind_eq_some_iff.mp hf
      rw [(CallContext.currentFrame?_some hcur hf).2]
      exact (congrArg (CallContext.back · i) ih.context).trans (CallContext.back_inCaller hcur)
    | effect he => exact (grows_effect _ he).trans ih
  | binary h _ _ ih ihn =>
    cases h with
    | connected => exact ih.trans ihn

/-! ### Soundness -/

namespace CodeRelation

/-- The same code. Recipes are related to themselves by it whatever their texts are. -/
def same : CodeRelation Local Local where
  rel _ c d := c = d
  effects := True
  names := True
  mono _ h := h
  anyText _ _ := rfl
  append ha hb _ := by rw [ha, hb]
  isOperand h := by rw [h]

theorem same_refl (n : Nat) (v : Value Local) : same.Values n v v := by
  cases v with
  | literal l => exact .literal l
  | expr type code => exact .expr rfl

end CodeRelation

/-- The recipe does not report calls: those are reported where calls are made. -/
def Recipe.CallFree (r : Recipe Local (Value Local)) : Prop :=
  ∃ n, r.Related CodeRelation.same CodeRelation.same.Values n r

namespace CallTree

/-- Nodes that can be under way at once: different ones, each in its graph. -/
structure Active (table : List Instance) (active : List (Nat × Nat)) : Prop where
  nodup : active.Nodup
  exists_node : ∀ p ∈ active, ∃ node, node? table p.1 p.2 = some node

theorem Active.mono {table table' : List Instance} {active : List (Nat × Nat)}
    (hp : table <+: table') (h : Active table active) : Active table' active := by
  refine ⟨h.nodup, fun p hm => ?_⟩
  obtain ⟨node, hn⟩ := h.exists_node p hm
  exact ⟨node, node?_mono hp hn⟩

end CallTree

/-- The nodes under way once a node is dispatched, that node first. -/
def Event.underway : Event → List (Nat × Nat)
  | dispatched key _ _ _ active => (key.graph, key.node) :: active
  | _ => []

open CallTree in
/-- A node is dispatched in a context that leads to its graph, and is not under way yet. -/
def Event.Sound (settings : Settings) (table : List Instance) : Event → Prop
  | dispatched key kind id context active =>
    context.Valid settings table ∧ context.current? = some key.graph ∧
      (∃ node, node? table key.graph key.node = some node ∧ node.kind = kind ∧ node.id = id) ∧
      Active table ((key.graph, key.node) :: active)
  | _ => True

theorem Event.Sound.mono {settings : Settings} {table table' : List Instance} {e : Event}
    (hp : table <+: table') (h : e.Sound settings table) : e.Sound settings table' := by
  cases e with
  | dispatched key kind id context active =>
    obtain ⟨hc, hcur, ⟨node, hn, hkind⟩, ha⟩ := h
    exact ⟨hc.mono hp, hcur, ⟨node, CallTree.node?_mono hp hn, hkind⟩, ha.mono hp⟩
  | _ => trivial

/-- What every state of an evaluation of the material graph `g` satisfies. -/
structure State.Sound (settings : Settings) (g : Graph) (s : State) : Prop where
  tree : CallTree settings g s.instances
  context : s.context.Valid settings s.instances
  active : CallTree.Active s.instances s.active
  slots : ∀ slot ∈ s.slots, slot.context.Valid settings s.instances ∧
    slot.context.current? = some slot.node.graph ∧ slot.input = slot.node.sibling slot.input.box
  trace : ∀ e ∈ s.trace, e.Sound settings s.instances
  /-- Only the material graph can have inputs without a call. -/
  diagnostics : ∀ d ∈ s.diagnostics, d.cause = .missingCall → d.function = none

/-- The task is for the current graph. -/
def Task.Located (s : State) : Task → Prop
  | box key => s.context.current? = some key.graph
  | node site => s.context.current? = some site.key.graph ∧ s.site? site.key = some site
  | recipe key r => s.context.current? = some key.graph ∧ r.CallFree

namespace State

variable {settings : Settings} {g : Graph} {s s' : State} {key : BoxKey} {site : Site}

theorem sound_ofGraph (settings : Settings) (g : Graph) : (ofGraph g).Sound settings g := by
  refine ⟨CallTree.single settings g, CallContext.valid_root _ _, ⟨List.nodup_nil, ?_⟩, ?_, ?_, ?_⟩
  all_goals simp [ofGraph]

theorem node?_of_site? (h : s.site? key = some site) :
    CallTree.node? s.instances key.graph key.node = some site.node := by
  obtain ⟨inst, node, hi, hn, rfl⟩ := site?_some h
  exact Option.bind_eq_some_iff.mpr ⟨inst, hi, hn⟩

theorem graph_of_producer? {producer : BoxKey} (h : s.producer? key = some producer) :
    producer.graph = key.graph := by
  obtain ⟨b, -, hb⟩ := Option.bind_eq_some_iff.mp h
  obtain ⟨c, -, rfl⟩ := Option.map_eq_some_iff.mp hb
  rfl

theorem Sound.withContext {c : CallContext} (h : s.Sound settings g)
    (hc : c.Valid settings s.instances) : { s with context := c }.Sound settings g :=
  { h with context := hc }

theorem Sound.record {e : Event} (h : s.Sound settings g) (he : e.Sound settings s.instances) :
    (s.record e).Sound settings g := by
  refine { h with trace := fun e' hm => ?_ }
  rcases List.mem_cons.mp hm with rfl | hm
  · exact he
  · exact h.trace e' hm

theorem Sound.report {cause : Cause} (h : s.Sound settings g)
    (hc : cause = .missingCall → CallTree.origin? s.instances key.graph = none) :
    (s.report key cause).Sound settings g := by
  unfold State.report
  dsimp only
  split
  · exact h
  · refine { h.record (e := .reported (s.diagnose key cause)) trivial with diagnostics := ?_ }
    intro d hd hcause
    rcases List.mem_append.mp hd with hd | hd
    · exact h.diagnostics d hd hcause
    · obtain rfl : d = s.diagnose key cause := by simpa using hd
      exact congrArg (Option.map _) (hc hcause)

theorem Sound.ask {id : AssetId} (h : s.Sound settings g) : (s.ask id).Sound settings g :=
  { h with }

theorem Sound.start (h : s.Sound settings g) (hcur : s.context.current? = some site.key.graph)
    (hs : s.site? site.key = some site)
    (ha : (site.key.graph, site.key.node) ∉ s.active) : (s.start site).Sound settings g := by
  have hn := node?_of_site? hs
  have hactive : CallTree.Active s.instances ((site.key.graph, site.key.node) :: s.active) := by
    refine ⟨List.nodup_cons.mpr ⟨ha, h.active.nodup⟩, fun p hp => ?_⟩
    rcases List.mem_cons.mp hp with rfl | hp
    · exact ⟨site.node, hn⟩
    · exact h.active.exists_node p hp
  have he : (Event.dispatched site.key site.node.kind site.node.id s.context s.active).Sound
      settings s.instances := ⟨h.context, hcur, ⟨site.node, hn, rfl, rfl⟩, hactive⟩
  exact { h.record he with active := hactive }

theorem Sound.remember {value : Option (Value Local)} (h : s.Sound settings g) :
    (s.remember key value).Sound settings g := by
  unfold State.remember
  split
  · exact { h with }
  · exact h

theorem Sound.finish {v : Value Local} (h : s.Sound settings g) :
    (s.finish key v).Sound settings g := by
  have hactive : CallTree.Active s.instances (s.active.erase (key.graph, key.node)) :=
    ⟨h.active.nodup.erase _, fun p hp => h.active.exists_node p (List.mem_of_mem_erase hp)⟩
  have hdone : { s with active := s.active.erase (key.graph, key.node) }.Sound settings g :=
    { h with active := hactive }
  unfold State.finish
  dsimp only
  split
  · exact hdone.remember
  · exact hdone

theorem Sound.claim (input : BoxId) (h : s.Sound settings g)
    (hcur : s.context.current? = some key.graph) :
    (s.claim settings key (key.sibling input)).2.Sound settings g := by
  unfold State.claim
  split
  · exact h
  · split
    · exact h
    · refine { h with slots := fun slot hm => ?_ }
      rcases List.mem_append.mp hm with hm | hm
      · exact h.slots slot hm
      · obtain rfl : slot = ⟨key, key.sibling input, s.context⟩ := by simpa using hm
        exact ⟨h.context, hcur, rfl⟩

theorem Sound.extend {table : List Instance} (h : s.Sound settings g)
    (hp : s.instances <+: table) (ht : CallTree settings g table) :
    { s with instances := table }.Sound settings g := by
  refine ⟨ht, h.context.mono hp, h.active.mono hp, fun slot hm => ?_, fun e hm => ?_, h.diagnostics⟩
  · exact ⟨(h.slots slot hm).1.mono hp, (h.slots slot hm).2⟩
  · exact (h.trace e hm).mono hp

/-- Requests of a recipe keep the state sound, and the recipe goes on as it was. -/
theorem Sound.effect {r r' : Recipe Local (Value Local)} (h : s.Sound settings g)
    (hl : (Task.recipe key r).Located s) (he : r.effect? settings key s = some (r', s')) :
    s'.Sound settings g ∧ (Task.recipe key r').Located s' := by
  obtain ⟨hcur, n, hr⟩ := hl
  have hcur' : s'.context.current? = some key.graph := by rw [(grows_effect s he).context, hcur]
  cases hr with
  | done => cases he
  | operand => cases he
  | declare _ hn =>
    cases he
    exact ⟨{ h with }, hcur', n + 1, hn _ _ (CodeRelation.same_refl _ _)⟩
  | block _ _ hn =>
    cases he
    exact ⟨{ h with }, hcur', n, hn⟩
  | comment hn =>
    cases he
    refine ⟨?_, hcur', n, hn⟩
    split
    · exact { h with }
    · exact h
  | report hc hn =>
    cases he
    exact ⟨h.report fun hm => absurd (hm ▸ .malformed _) hc, hcur', n, hn⟩
  | use hn =>
    cases he
    exact ⟨{ h with }, hcur', n, hn⟩
  | sample hn =>
    cases he
    refine ⟨?_, hcur', n, hn⟩
    unfold State.sample
    split
    · exact h
    · exact { h with }
  | remember _ _ hn =>
    cases he
    exact ⟨h.remember, hcur', n, hn⟩
  | claim _ hn =>
    cases he
    exact ⟨h.claim _ hcur, hcur', n, hn _⟩

/-! Calls -/

theorem instanceOf?_some {caller n i : Nat} (h : s.instanceOf? caller n = some i) :
    ∃ o, CallTree.origin? s.instances i = some o ∧ o.caller = caller ∧ o.site = n := by
  obtain ⟨hlt, hp, -⟩ := List.findIdx?_eq_some_iff_getElem.mp h
  cases ho : s.instances[i].origin with
  | none => simp [ho] at hp
  | some o =>
    simp only [ho, Bool.and_eq_true, beq_iff_eq] at hp
    refine ⟨o, Option.bind_eq_some_iff.mpr ⟨_, List.getElem?_eq_getElem hlt, ho⟩, hp⟩

theorem instanceOf?_none {caller n : Nat} (h : s.instanceOf? caller n = none) (i : Nat) (o : Origin)
    (ho : CallTree.origin? s.instances i = some o) (hc : o.caller = caller) : o.site ≠ n := by
  intro hs
  obtain ⟨inst, hi, hin⟩ := CallTree.getElem?_of_origin? ho
  have hp := List.findIdx?_eq_none_iff.mp h inst (List.mem_of_getElem? hi)
  simp [hin, hc, hs] at hp

theorem not_calling {id : AssetId} (h : s.isCalling id = false) (i : Nat)
    (hi : i ∈ s.context.graphs) (o : Origin) (ho : CallTree.origin? s.instances i = some o) :
    o.function.id ≠ id := by
  have hp := List.any_eq_false.mp h i hi
  change s.instances[i]?.bind (·.origin) = some o at ho
  simpa [instance?, ho] using hp

/-- The graph of a call is one made for the call node and the function it asks for. -/
theorem Sound.instantiate {function : MaterialFunction} {earlier graph : Nat}
    (h : s.Sound settings g) (hcur : s.context.current? = some site.key.graph)
    (hs : s.site? site.key = some site) (hk : site.node.kind = .materialFunction)
    (hl : settings.resolver.load earlier site.node.callee = .ok function)
    (hc : s.isCalling site.node.callee = false)
    (hi : s.instantiate site function = (graph, s')) :
    s'.Sound settings g ∧ ∃ o, CallTree.origin? s'.instances graph = some o ∧
      o.caller = site.key.graph ∧ o.site = site.key.node ∧ o.function.id = site.node.callee := by
  have hn := node?_of_site? hs
  have hid := (Resolver.load_ok hl).2
  unfold State.instantiate at hi
  split at hi
  next i hsome =>
    cases hi
    obtain ⟨o, ho, hcaller, hsite⟩ := instanceOf?_some hsome
    obtain ⟨-, node, hnode, -, _, hload⟩ := h.tree.caller graph o ho
    rw [hcaller, hsite] at hnode
    obtain rfl : site.node = node := Option.some.inj (hn.symm.trans hnode)
    exact ⟨h, o, ho, hcaller, hsite, (Resolver.load_ok hload).2⟩
  next hnone =>
    cases hi
    have hlin := h.context.lineage_current hcur
    have hfresh : ∀ j ∈ s.context.graphs, ∀ o, CallTree.origin? s.instances j = some o →
        o.function.id ≠ function.id := by
      rw [hid]
      exact not_calling hc
    have ht := h.tree.append hn hk hl (instanceOf?_none hnone) hlin hfresh
    refine ⟨(h.extend (List.prefix_append _ _) (ht _)).record trivial, ?_⟩
    exact ⟨_, by rw [CallTree.origin?_append_one, if_pos rfl], rfl, rfl, hid⟩

end State

namespace Cause

theorem dependsOnItself_ne (node : NodeId) : dependsOnItself node ≠ missingCall := by
  intro h
  have hhead := congrArg (·.toList.head?) (Cause.recursiveOrMalformedCall.inj h)
  simp [Literal.toString_self] at hhead

theorem recursiveCall_ne (function : AssetId) : recursiveCall function ≠ missingCall := by
  intro h
  have hhead := congrArg (·.toList.head?) (Cause.recursiveOrMalformedCall.inj h)
  simp [Literal.toString_self] at hhead

end Cause

theorem Site.recipe_callFree (site : Site) (domain : Domain) (stage : Stage) :
    (site.recipe domain stage).CallFree :=
  ⟨0, site.recipe_related _ 0 domain stage (fun _ => trivial) fun _ _ => .inr trivial⟩

/-! ### From a task to the tasks it is made of -/

section Located

variable {settings : Settings} {g : Graph} {s s' : State} {site : Site} {key producer : BoxKey}
  {next : Option (Value Local) → Recipe Local (Value Local)} {box : BoxId}

theorem Task.Located.node (hs : s.site? key = some site) (hl : (Task.box key).Located s) :
    (Task.node site).Located (s.start site) := by
  obtain rfl := State.key_of_site? hs
  exact ⟨hl, hs⟩

theorem Task.Located.recipe (hl : (Task.node site).Located s) (domain : Domain) (stage : Stage) :
    (Task.recipe site.key (site.recipe domain stage)).Located s :=
  ⟨hl.1, site.recipe_callFree domain stage⟩

theorem Task.Located.default (hl : (Task.node site).Located s) :
    (Task.recipe site.key (Recipe.operandOrParam site 1 1)).Located s :=
  ⟨hl.1, 0, .operandOrParam site 1 1⟩

theorem Task.Located.fed (hl : (Task.recipe key (.operand box next)).Located s)
    (hp : s.producer? (key.sibling box) = some producer) : (Task.box producer).Located s :=
  hl.1.trans (congrArg some (State.graph_of_producer? hp).symm)

theorem Task.Located.answer (hl : (Task.recipe key (.operand box next)).Located s)
    (hg : s.Grows s') (a : Option (Value Local)) : (Task.recipe key (next a)).Located s' := by
  obtain ⟨hcur, n, hr⟩ := hl
  cases hr with
  | operand h =>
    refine ⟨by rw [hg.context, hcur], n, h n a a (Nat.le_refl n) ?_⟩
    cases a with
    | none => exact .none
    | some a => exact .some (CodeRelation.same_refl n a)

/-- Within a call, the output of the function is evaluated in the graph of the call. -/
theorem State.Sound.enter {function : MaterialFunction} {earlier graph output : Nat}
    (h : s.Sound settings g) (hl : (Task.node site).Located s)
    (hk : site.node.kind = .materialFunction)
    (hload : settings.resolver.load earlier site.node.callee = .ok function)
    (hc : s.isCalling site.node.callee = false)
    (hi : (s.ask site.node.callee).instantiate site function = (graph, s'))
    (hp : s'.producer? ⟨graph, output, 0⟩ = some producer) :
    { s' with context := s'.context.enter ⟨site.key.graph, site.key.node, graph, function⟩ }.Sound
        settings g ∧
      (Task.box producer).Located { s' with
        context := s'.context.enter ⟨site.key.graph, site.key.node, graph, function⟩ } := by
  have hcur : (s.ask site.node.callee).context.current? = some site.key.graph := hl.1
  obtain ⟨hmade, o, ho, hcaller, hsite, hid⟩ := h.ask.instantiate hcur hl.2 hk hload hc hi
  have hcur' : s'.context.current? = some o.caller := by
    rw [(s.grows_made hi).context, hcaller]
    exact hl.1
  have hvalid : (s'.context.enter ⟨site.key.graph, site.key.node, graph, function⟩).Valid settings
      s'.instances :=
    hmade.context.enter ho hcur' hcaller.symm hsite.symm ⟨earlier, hid ▸ hload⟩
  exact ⟨hmade.withContext hvalid, congrArg some (graph_of_producer? hp).symm⟩

theorem CallFrame.argument?_graph {frame : CallFrame} {id : NodeId} {argument : BoxKey}
    (h : frame.argument? id = some argument) : argument.graph = frame.caller := by
  unfold CallFrame.argument? at h
  dsimp only at h
  split at h
  · cases h
    rfl
  · cases h

/-- An argument is evaluated in the graph of the caller. -/
theorem State.Sound.toCaller {frame : CallFrame} {argument : BoxKey} (h : s.Sound settings g)
    (hl : (Task.node site).Located s) (hf : s.context.currentFrame? = some frame)
    (ha : frame.argument? site.node.id = some argument)
    (hp : s.producer? argument = some producer) :
    { s with context := s.context.inCaller }.Sound settings g ∧
      (Task.box producer).Located { s with context := s.context.inCaller } := by
  obtain ⟨o, ho, hcaller, -⟩ := h.context.currentFrame hl.1 hf
  refine ⟨h.withContext (h.context.inCaller h.tree hl.1 ho), ?_⟩
  change s.context.inCaller.current? = some producer.graph
  rw [h.context.current?_inCaller h.tree hl.1 ho, graph_of_producer? hp,
    CallFrame.argument?_graph ha, hcaller]

end Located

namespace Evaluation.Needs

variable {settings : Settings} {g : Graph} {x y z : Evaluation}

/-- What is needed starts in a sound state and in the current graph, if the evaluation does. -/
theorem sound (h : x.Needs settings [y]) (hs : x.before.Sound settings g)
    (hl : x.task.Located x.before) : y.before.Sound settings g ∧ y.task.Located y.before := by
  cases h with
  | dispatched _ hsite ha =>
    have hnode := hl.node hsite
    obtain rfl := State.key_of_site? hsite
    exact ⟨hs.start hl hsite ha, hnode⟩
  | plain => exact ⟨hs, hl.recipe _ _⟩
  | called hk hload hc hi _ hp => exact hs.enter hl hk hload hc hi hp
  | passed _ hf _ ha hp => exact hs.toCaller hl hf ha hp
  | defaulted => exact ⟨hs, hl.default⟩
  | unconnected => exact ⟨hs, hl.answer (.refl _) none⟩
  | effect he => exact hs.effect hl he

theorem sound_first (h : x.Needs settings [y, z]) (hs : x.before.Sound settings g)
    (hl : x.task.Located x.before) : y.before.Sound settings g ∧ y.task.Located y.before := by
  cases h with
  | connected hp => exact ⟨hs, hl.fed hp⟩

theorem sound_second (h : x.Needs settings [y, z]) (hl : x.task.Located x.before)
    (hy : Runs settings y.task y.before y.value y.after) (hs : y.after.Sound settings g) :
    z.before.Sound settings g ∧ z.task.Located z.before := by
  cases h with
  | connected => exact ⟨hs, hl.answer hy.grows _⟩

end Evaluation.Needs

/-- Every evaluation keeps a sound state sound. -/
theorem Runs.sound {settings : Settings} {g : Graph} {t : Task} {s s' : State} {v : Value Local}
    (h : Runs settings t s v s') (hs : s.Sound settings g) (hl : t.Located s) :
    s'.Sound settings g := by
  induction h with
  | @leaf _ s _ _ h =>
    cases h with
    | remembered | absent | done => exact hs
    | reentered => exact hs.report fun hc => absurd hc (Cause.dependsOnItself_ne _)
    | @notLoaded site _ e =>
      have hnoted : ((s.ask site.node.callee).record (.notLoaded e)).Sound settings g :=
        hs.ask.record trivial
      exact hnoted.report fun hc => by cases hc
    | recursive => exact hs.ask.report fun hc => absurd hc (Cause.recursiveCall_ne _)
    | unlisted hk hload hc hi =>
      exact (hs.ask.instantiate hl.1 hl.2 hk hload hc hi).1.report fun hc => by cases hc
    | unfed hk hload hc hi => exact (hs.ask.instantiate hl.1 hl.2 hk hload hc hi).1
    | @outside site _ _ hf =>
      refine hs.report fun _ => ?_
      -- a called graph has its call, so this is the material graph
      by_cases h0 : site.key.graph = 0
      · rw [h0, hs.tree.origin?_root]
      · obtain ⟨frame, hframe⟩ := hs.context.exists_currentFrame? hl.1 h0
        exact absurd (CallContext.currentFrame?_some hl.1 hframe).2 (hf frame hframe)
    | undeclared => exact hs.report fun hc => by cases hc
  | unary h hrun ih =>
    obtain ⟨hs₁, hl₁⟩ := h.sound hs hl
    have hend := ih hs₁ hl₁
    cases h with
    | dispatched _ hsite =>
      obtain rfl := State.key_of_site? hsite
      exact hend.finish
    | plain | defaulted | unconnected | effect => exact hend
    | called hk hload hc hi =>
      have hmade := (hs.ask.instantiate hl.1 hl.2 hk hload hc hi).1
      refine hend.withContext ?_
      rw [hrun.grows.context]
      exact hmade.context.mono hrun.grows.instances
    | passed _ _ hg =>
      refine hend.withContext ?_
      rw [hrun.grows.context, hg, CallContext.back_inCaller hl.1]
      exact hs.context.mono hrun.grows.instances
  | binary h hrun _ ih ihn =>
    obtain ⟨hs₁, hl₁⟩ := h.sound_first hs hl
    obtain ⟨hs₂, hl₂⟩ := h.sound_second hl hrun (ih hs₁ hl₁)
    have hend := ihn hs₂ hl₂
    cases h with
    | connected => exact hend

end ShaderGraph
