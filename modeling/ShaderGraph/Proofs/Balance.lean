import ShaderGraph.Proofs.Succession

/-! Evaluations are balanced. Whatever a box, a node or a recipe runs into, the context and the
nodes under way are in the end what they were, and everything else that outlasts the evaluation has
only been added to. A relation between states holds across evaluations as soon as it holds across
the few elementary changes that evaluations are made of. -/

namespace ShaderGraph

namespace State

/-! ### Elementary changes -/

/-- A relation between states that holds across every elementary change of an evaluation. -/
structure Stepwise (settings : Settings) (R : State → State → Prop) : Prop where
  refl : ∀ s, R s s
  trans : ∀ {s s' s''}, R s s' → R s' s'' → R s s''
  context : ∀ s c, R s { s with context := c }
  active : ∀ s a, R s { s with active := a }
  loads : ∀ s l, R s { s with loads := l }
  record : ∀ s e, R s (s.record e)
  use : ∀ s feature, R s (s.use feature)
  push : ∀ s statement, R s { s with writer := s.writer.push statement }
  report : ∀ s key cause, R s (s.report key cause)
  sample : ∀ s texture, R s (s.sample texture)
  remember : ∀ s key value, R s (s.remember key value)
  claim : ∀ s key input, R s (s.claim settings key input).2
  instantiate : ∀ s site function, R s (s.instantiate site function).2

namespace Stepwise

variable {settings : Settings} {R : State → State → Prop}

theorem start (h : Stepwise settings R) (s : State) (site : Site) : R s (s.start site) :=
  h.trans (h.record s _) (h.active _ _)

theorem finish (h : Stepwise settings R) (s : State) (key : BoxKey) (v : Value Local) :
    R s (s.finish key v) := by
  unfold State.finish
  dsimp only
  split
  · exact h.trans (h.active s _) (h.remember _ key _)
  · exact h.active s _

theorem ask (h : Stepwise settings R) (s : State) (id : AssetId) : R s (s.ask id) :=
  h.trans (h.use s .functions) (h.loads _ _)

theorem made (h : Stepwise settings R) {s s' : State} {site : Site} {function : MaterialFunction}
    {graph : Nat} (hi : (s.ask site.node.callee).instantiate site function = (graph, s')) :
    R s s' := by
  have hmade := h.instantiate (s.ask site.node.callee) site function
  rw [hi] at hmade
  exact h.trans (h.ask s _) hmade

theorem effect {α : Type} (h : Stepwise settings R) {key : BoxKey} {s s' : State}
    {r r' : Recipe Local α} (he : r.effect? settings key s = some (r', s')) : R s s' := by
  cases r with
  | done => cases he
  | operand => cases he
  | declare =>
    cases he
    exact h.push s _
  | block =>
    cases he
    exact h.push s _
  | comment =>
    cases he
    split
    · exact h.push s _
    · exact h.refl s
  | report =>
    cases he
    exact h.report s key _
  | use =>
    cases he
    exact h.use s _
  | sample =>
    cases he
    exact h.sample s _
  | remember =>
    cases he
    exact h.remember s _ _
  | claim =>
    cases he
    exact h.claim s key _

end Stepwise

end State

section

variable {settings : Settings} {R : State → State → Prop} {g : Graph} {x y : Evaluation}
  {s s' : State} {xs l : List Evaluation}

theorem Evaluation.Needs.stepwise (hR : State.Stepwise settings R) (h : x.Needs settings [y]) :
    R x.before y.before ∧ R y.after x.after := by
  cases h with
  | dispatched => exact ⟨hR.start _ _, hR.finish _ _ _⟩
  | called _ _ _ hi => exact ⟨hR.trans (hR.made hi) (hR.context _ _), hR.context _ _⟩
  | passed => exact ⟨hR.context _ _, hR.context _ _⟩
  | effect he => exact ⟨hR.effect he, hR.refl _⟩
  | plain | defaulted | unconnected => exact ⟨hR.refl _, hR.refl _⟩

/-- What every elementary change satisfies, every evaluation does. -/
theorem Runs.stepwise (hR : State.Stepwise settings R) {t : Task} {v : Value Local}
    (h : Runs settings t s v s') : R s s' := by
  induction h with
  | leaf h =>
    cases h with
    | remembered | absent | done => exact hR.refl _
    | reentered | outside | undeclared => exact hR.report _ _ _
    | notLoaded => exact hR.trans (hR.trans (hR.ask _ _) (hR.record _ _)) (hR.report _ _ _)
    | recursive => exact hR.trans (hR.ask _ _) (hR.report _ _ _)
    | unlisted _ _ _ hi => exact hR.trans (hR.made hi) (hR.report _ _ _)
    | unfed _ _ _ hi => exact hR.made hi
  | unary h _ ih =>
    obtain ⟨hopen, hclose⟩ := h.stepwise hR
    exact hR.trans (hR.trans hopen ih) hclose
  | binary h _ _ ih ihn =>
    cases h with
    | connected => exact hR.trans ih ihn

/-- What every elementary change satisfies holds across every evaluation on the way, up to its start
and from its end on. -/
theorem Course.stepwise (hR : State.Stepwise settings R) (h : Course settings x l) :
    ∀ y ∈ l, R x.before y.before ∧ R y.before y.after ∧ R y.after x.after := by
  have houter : ∀ y ∈ l, R x.before y.before ∧ R y.after x.after := by
    refine h.forall_mem (Q := fun y => R x.before y.before ∧ R y.after x.after) ?_ ?_
      ⟨hR.refl _, hR.refl _⟩
    · rintro z y hn ⟨hstart, hend⟩
      obtain ⟨hopen, hclose⟩ := hn.stepwise hR
      exact ⟨hR.trans hstart hopen, hR.trans hclose hend⟩
    · rintro z y w hn ⟨hstart, hend⟩ hy hw
      cases hn with
      | connected =>
        exact ⟨⟨hstart, hR.trans (hw.stepwise hR) hend⟩, hR.trans hstart (hy.stepwise hR), hend⟩
  intro y hy
  obtain ⟨l', hcourse, -⟩ := h.mem hy
  exact ⟨(houter y hy).1, hcourse.runs.stepwise hR, (houter y hy).2⟩

theorem Succession.stepwise (hR : State.Stepwise settings R) (h : Succession settings g s xs s')
    (hl : Courses settings xs l) :
    R s s' ∧ ∀ y ∈ l, R s y.before ∧ R y.before y.after ∧ R y.after s' := by
  induction h generalizing l with
  | nil =>
    cases hl
    exact ⟨hR.refl _, by simp⟩
  | @cons s x xs s' hx _ ih =>
    cases hl with
    | cons hc hcs =>
      obtain ⟨c, hbefore⟩ := hx.before
      have hopen : R s x.before := by
        rw [hbefore]
        exact hR.context s c
      have hclose : R x.after (s.resume x) := hR.context x.after _
      have hfirst : R s (s.resume x) := hR.trans (hR.trans hopen (hx.runs.stepwise hR)) hclose
      obtain ⟨hrest, hmem⟩ := ih hcs
      refine ⟨hR.trans hfirst hrest, fun y hy => ?_⟩
      rcases List.mem_append.mp hy with hy | hy
      · obtain ⟨hstart, hown, hend⟩ := hc.stepwise hR y hy
        exact ⟨hR.trans hopen hstart, hown, hR.trans hend (hR.trans hclose hrest)⟩
      · obtain ⟨hstart, hown, hend⟩ := hmem y hy
        exact ⟨hR.trans hfirst hstart, hown, hend⟩

end

/-! ### Textures and features -/

theorem Usage.contains_insert (u : Usage) (f f' : Feature) (h : u.contains f = true) :
    (u.insert f').contains f = true := by
  cases f' <;> cases f <;> first | exact h | rfl

namespace State

/-- The textures that are sampled and the features that are used are only ever added to. -/
structure AddsUse (s s' : State) : Prop where
  textures : s.textures <+: s'.textures
  usage : ∀ f, s.usage.contains f = true → s'.usage.contains f = true

/-- States that differ in other respects only. -/
theorem AddsUse.of_eq {s s' : State} (ht : s'.textures = s.textures) (hu : s'.usage = s.usage) :
    s.AddsUse s' :=
  ⟨ht ▸ List.prefix_refl _, fun _ hf => hu ▸ hf⟩

theorem stepwise_addsUse (settings : Settings) : Stepwise settings AddsUse where
  refl _ := .of_eq rfl rfl
  trans h h' := ⟨h.textures.trans h'.textures, fun f hf => h'.usage f (h.usage f hf)⟩
  context _ _ := .of_eq rfl rfl
  active _ _ := .of_eq rfl rfl
  loads _ _ := .of_eq rfl rfl
  record _ _ := .of_eq rfl rfl
  use s feature := ⟨List.prefix_refl _, fun f hf => s.usage.contains_insert f feature hf⟩
  push _ _ := .of_eq rfl rfl
  report s key cause := by
    unfold State.report
    dsimp only
    split <;> exact .of_eq rfl rfl
  sample s texture := by
    unfold State.sample
    split
    · exact .of_eq rfl rfl
    · exact ⟨List.prefix_append _ _, fun _ hf => hf⟩
  remember s key value := by
    obtain ⟨memory, hr⟩ := s.remember_eq key value
    rw [hr]
    exact .of_eq rfl rfl
  claim s key input := by
    unfold State.claim
    split
    · exact .of_eq rfl rfl
    · split <;> exact .of_eq rfl rfl
  instantiate s site function := by
    unfold State.instantiate
    split <;> exact .of_eq rfl rfl

/-! ### Balance -/

/-- An evaluation that starts in one state can end in the other. -/
structure Balanced (settings : Settings) (s s' : State) : Prop where
  context : s'.context = s.context
  active : s'.active = s.active
  stage : s'.stage = s.stage
  instances : s.instances <+: s'.instances
  /-- A new graph is that of a function, loaded for the call node of an earlier graph. -/
  made : ∀ i inst, s.instances.length ≤ i → s'.instances[i]? = some inst →
    ∃ o node earlier, inst = ⟨o.function.graph, some o⟩ ∧ o.caller < i ∧
      CallTree.node? s'.instances o.caller o.site = some node ∧ node.kind = .materialFunction ∧
      settings.resolver.load earlier node.callee = .ok o.function
  /-- The graph of a call node stays its graph. -/
  instanceOf : ∀ caller site graph, s.instanceOf? caller site = some graph →
    s'.instanceOf? caller site = some graph
  slots : s.slots <+: s'.slots
  textures : s.textures <+: s'.textures
  diagnostics : s.diagnostics <+: s'.diagnostics
  usage : ∀ f, s.usage.contains f = true → s'.usage.contains f = true
  code : ∃ text, s'.writer.source = s.writer.source ++ text

theorem instanceOf?_mono {s s' : State} (hp : s.instances <+: s'.instances)
    {caller site graph : Nat} (h : s.instanceOf? caller site = some graph) :
    s'.instanceOf? caller site = some graph := by
  obtain ⟨rest, hrest⟩ := hp
  unfold instanceOf? at h ⊢
  rw [← hrest, List.findIdx?_append, h]
  rfl

theorem source_mono {s s' : State} (hp : s.writer.statements <+: s'.writer.statements) :
    ∃ text, s'.writer.source = s.writer.source ++ text := by
  obtain ⟨rest, hrest⟩ := hp
  refine ⟨String.join (rest.map Statement.source), ?_⟩
  rw [Writer.source, ← hrest, List.map_append, String.join_append]
  rfl

theorem exists_function_of_le {settings : Settings} {g : Graph} {s s' : State} {i : Nat}
    {inst : Instance} (hs : s.Sound settings g) (hs' : s'.Sound settings g)
    (hle : s.instances.length ≤ i) (hi : s'.instances[i]? = some inst) :
    ∃ o node earlier, inst = ⟨o.function.graph, some o⟩ ∧ o.caller < i ∧
      CallTree.node? s'.instances o.caller o.site = some node ∧ node.kind = .materialFunction ∧
      settings.resolver.load earlier node.callee = .ok o.function := by
  have hroot := (List.getElem?_eq_some_iff.mp hs.tree.root).1
  obtain ⟨o, ho, hgraph⟩ := hs'.tree.made i inst hi (by omega)
  have horigin : CallTree.origin? s'.instances i = some o :=
    Option.bind_eq_some_iff.mpr ⟨inst, hi, ho⟩
  obtain ⟨hlt, node, hn, hk, earlier, hl⟩ := hs'.tree.caller i o horigin
  refine ⟨o, node, earlier, ?_, hlt, hn, hk, hl⟩
  rw [← hgraph, ← ho]

end State

theorem Runs.balanced {settings : Settings} {g : Graph} {t : Task} {s s' : State} {v : Value Local}
    (h : Runs settings t s v s') (hs : s.Sound settings g) (hl : t.Located s) :
    s.Balanced settings s' := by
  have hg := h.grows
  have hu := h.stepwise (State.stepwise_addsUse settings)
  exact {
    context := hg.context
    active := hg.active
    stage := hg.stage
    instances := hg.instances
    made := fun i inst hle hi => State.exists_function_of_le hs (h.sound hs hl) hle hi
    instanceOf := fun caller site graph hi => State.instanceOf?_mono hg.instances hi
    slots := hg.slots
    textures := hu.textures
    diagnostics := hg.diagnostics
    usage := hu.usage
    code := State.source_mono hg.statements }

/-- Every answer to a request is balanced, after any earlier requests, and so is every evaluation on
the way to it, however many calls deep. -/
theorem Generator.answer_balanced (g : Graph) (domain : Domain) (resolver : Resolver)
    (config : Config) (requests : List Request) (request : Request) :
    let gen := ((new g domain resolver).withConfig config).after requests
    let s := (gen.answer request).2.state
    (gen.answer request).2 = { gen with state := s } ∧ gen.state.Balanced gen.settings s ∧
      ∃ l, Course gen.settings (gen.requestStep request gen.state) l ∧
        ∀ y ∈ l, y.before.Balanced gen.settings y.after := by
  intro gen s
  obtain ⟨-, -, hidle⟩ := idle_after g domain resolver config requests
  obtain ⟨hfrom, -⟩ := requestStep_from hidle request
  refine ⟨by cases request <;> rfl, hfrom.runs.balanced hfrom.sound hfrom.located, ?_⟩
  obtain ⟨l, hl⟩ := hfrom.runs.course
  refine ⟨l, hl, fun y hy => ?_⟩
  obtain ⟨hs, hlocated⟩ := hl.sound hfrom.sound hfrom.located y hy
  obtain ⟨l', hcourse, -⟩ := hl.mem hy
  exact hcourse.runs.balanced hs hlocated

end ShaderGraph
