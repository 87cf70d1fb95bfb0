import ShaderGraph.Proofs.Parallel
import ShaderGraph.Proofs.Replacement

/-! Evaluation with the calls that cannot be loaded, and evaluation with constants in their places.
Both compute the same values, write the same statements and claim the same slots; the first one
reports the calls, and of the replaced nodes nothing but zero is remembered in either. -/

namespace ShaderGraph

open CallTree

def Slot.replaced (library : Library) (slot : Slot) : Slot :=
  { slot with context := slot.context.replaced library }

def Settings.replaced (library : Library) (settings : Settings) : Settings :=
  { settings with resolver := ⟨[library.replaced]⟩ }

/-- A function was not loaded. -/
def Cause.isUnloadable : Cause → Bool
  | missingOrInvalidAsset _ => true
  | _ => false

theorem Cause.isUnloadable_eq_false {cause : Cause} (h : ¬ cause.OfCall) :
    cause.isUnloadable = false := by
  cases cause with
  | missingOrInvalidAsset id => exact absurd (.unloadable id) h
  | _ => rfl

/-- The diagnostic is that of a replaced node, in the material graph or in a function. -/
def Diagnostic.OfReplaced (library : Library) (g : Graph) (d : Diagnostic) : Prop :=
  ∃ graph n, (d.function = none ∧ graph = g ∨
      ∃ id f, library.load id = .ok f ∧ d.function = some f.id ∧ graph = f.graph) ∧
    n ∈ graph.nodes ∧ n.unloadable library ∧ n.id = d.node ∧
    d.cause = .missingOrInvalidAsset n.callee

/-- The place holds a node that is not replaced. -/
def CallTree.Kept (library : Library) (table : List Instance) (p : Nat × Nat) : Prop :=
  ∃ node, node? table p.1 p.2 = some node ∧ node.unloadable library = false

theorem CallTree.Kept.mono {library : Library} {table table' : List Instance} {p : Nat × Nat}
    (hp : table <+: table') (h : Kept library table p) : Kept library table' p := by
  obtain ⟨node, hn, hu⟩ := h
  exact ⟨node, node?_mono hp hn, hu⟩

theorem CallTree.Kept.eq_false {library : Library} {table : List Instance} {p : Nat × Nat}
    (h : Kept library table p) : unloadable library table p = false := by
  obtain ⟨node, hn, hu⟩ := h
  rw [unloadable_of_node? hn, hu]

theorem CallTree.unloadable_of_lt {library : Library} {table table' : List Instance} {p : Nat × Nat}
    (hp : table <+: table') (hlt : p.1 < table.length) :
    unloadable library table' p = unloadable library table p := by
  obtain ⟨rest, rfl⟩ := hp
  rw [unloadable, unloadable, List.getElem?_append_left hlt]

theorem CallTree.unloadable_of_not_lt {library : Library} {table : List Instance} {p : Nat × Nat}
    (hlt : ¬ p.1 < table.length) : unloadable library table p = false := by
  rw [unloadable, List.getElem?_eq_none (Nat.not_lt.mp hlt)]
  rfl

/-- The state `u` of an evaluation with the calls replaced, for a state `s` of the evaluation of
`g`. What is remembered of a replaced node is zero, if anything. -/
structure State.Contained (library : Library) (g : Graph) (s u : State) : Prop where
  instances : u.instances = s.instances.map (·.replaced library)
  context : u.context = s.context.replaced library
  stage : u.stage = s.stage
  writer : u.writer = s.writer
  active : u.active = s.active
  slots : u.slots = s.slots.map (·.replaced library)
  textures : u.textures = s.textures
  diagnostics : u.diagnostics = s.diagnostics.filter (!·.cause.isUnloadable)
  reported : ∀ d ∈ s.diagnostics, d.cause.isUnloadable → d.OfReplaced library g
  memory : ∀ key, unloadable library s.instances key.place = false →
    u.remembered? key = s.remembered? key
  zero : ∀ key v, unloadable library s.instances key.place = true →
    s.remembered? key = some v ∨ u.remembered? key = some v → v = .zero .float1
  known : ∀ key, (s.remembered? key).isSome → key.graph < s.instances.length
  underway : ∀ p ∈ s.active, Kept library s.instances p
  claimed : ∀ slot ∈ s.slots, Kept library s.instances slot.node.place

namespace State.Contained

variable {settings : Settings} {library : Library} {g : Graph} {s s' u u' : State} {key : BoxKey}
  {cause : Cause}

theorem site?_eq {site : Site} (h : s.Contained library g u) (hsite : s.site? key = some site) :
    u.site? key = some (site.replaced library) := by
  rw [State.site?_replaced h.instances, hsite]
  rfl

theorem currentFrame?_eq {frame : CallFrame} (h : s.Contained library g u)
    (hf : s.context.currentFrame? = some frame) :
    u.context.currentFrame? = some (frame.replaced library) := by
  rw [h.context, CallContext.currentFrame?_replaced, hf]
  rfl

theorem producer?_eq {producer : Option BoxKey} (h : s.Contained library g u) (key : BoxKey)
    (hk : unloadable library s.instances key.place = false) (hp : s.producer? key = producer) :
    u.producer? key = producer.map (reading library s.instances) := by
  rw [State.producer?_replaced h.instances hk, hp]

/-! ### Steps of both evaluations -/

theorem record (h : s.Contained library g u) (e e' : Event) :
    (s.record e).Contained library g (u.record e') := { h with }

theorem ask (h : s.Contained library g u) (id : AssetId) :
    (s.ask id).Contained library g (u.ask id) := { h with }

theorem use (h : s.Contained library g u) (feature : Feature) :
    (s.use feature).Contained library g (u.use feature) := { h with }

theorem write (h : s.Contained library g u) (writer : Writer) :
    { s with writer := writer }.Contained library g { u with writer := writer } :=
  { h with writer := rfl }

theorem report (h : s.Contained library g u) (key : BoxKey) (hc : cause.isUnloadable = false) :
    (s.report key cause).Contained library g (u.report key cause) := by
  have hcause : (s.diagnose key cause).cause = cause := rfl
  have hmem : s.diagnose key cause ∈ u.diagnostics ↔ s.diagnose key cause ∈ s.diagnostics := by
    simp [h.diagnostics, hcause, hc]
  unfold State.report
  simp only [State.diagnose_replaced h.instances, hmem]
  split
  · exact h
  · exact { h with
      diagnostics := by simp [h.diagnostics, hcause, hc]
      reported := fun d hd hu => by
        rcases List.mem_append.mp hd with hd | hd
        · exact h.reported d hd hu
        · obtain rfl := List.mem_singleton.mp hd
          simp [hcause, hc] at hu }

theorem sample (h : s.Contained library g u) (texture : SceneTexture) :
    (s.sample texture).Contained library g (u.sample texture) := by
  unfold State.sample
  rw [h.textures]
  split
  · exact h
  · exact { h with textures := rfl }

theorem claim (settings : Settings) (h : s.Contained library g u)
    (hk : Kept library s.instances key.place) (input : BoxKey) :
    (u.claim (settings.replaced library) key input).1 = (s.claim settings key input).1 ∧
      (s.claim settings key input).2.Contained library g
        (u.claim (settings.replaced library) key input).2 := by
  have hlength : u.slots.length = s.slots.length := by rw [h.slots, List.length_map]
  have hlimit : (settings.replaced library).slotLimit = settings.slotLimit := rfl
  have hdomain : (settings.replaced library).domain = settings.domain := rfl
  unfold State.claim
  rw [hlength, hlimit, hdomain]
  split
  · exact ⟨rfl, h⟩
  · split
    · exact ⟨rfl, h⟩
    · refine ⟨rfl, { h with slots := ?_, claimed := fun slot hm => ?_ }⟩
      · simp [h.slots, h.context, Slot.replaced]
      · rcases List.mem_append.mp hm with hm | hm
        · exact h.claimed slot hm
        · obtain rfl := List.mem_singleton.mp hm
          exact hk

/-! ### Memory -/

theorem withMemory (h : s.Contained library g u) (m m' : List (BoxKey × Value Local))
    (hm : ∀ key, unloadable library s.instances key.place = false → m'.lookup key = m.lookup key)
    (hz : ∀ key v, unloadable library s.instances key.place = true →
      m.lookup key = some v ∨ m'.lookup key = some v → v = .zero .float1)
    (hk : ∀ key, (m.lookup key).isSome → key.graph < s.instances.length) :
    { s with memory := m }.Contained library g { u with memory := m' } :=
  { h with memory := hm, zero := hz, known := hk }

theorem remember (h : s.Contained library g u)
    (hk : unloadable library s.instances key.place = false) (value : Option (Value Local)) :
    (s.remember key value).Contained library g (u.remember key value) := by
  have hbox : (u.box? key).isSome = (s.box? key).isSome := by
    rw [← Option.isSome_map, State.map_decl_replaced h.instances hk, Option.isSome_map]
  by_cases hb : (s.box? key).isSome
  · have hself := remembered?_remember_self hb value
    have hself' := remembered?_remember_self (hbox.trans hb) value
    have hother := fun key' (hne : key' ≠ key) => remembered?_remember_of_ne s hne value
    have hother' := fun key' (hne : key' ≠ key) => remembered?_remember_of_ne u hne value
    obtain ⟨m, hm⟩ := s.remember_eq key value
    obtain ⟨m', hm'⟩ := u.remember_eq key value
    rw [hm] at hself hother ⊢
    rw [hm'] at hself' hother' ⊢
    refine h.withMemory m m' (fun key' hk' => ?_) (fun key' v hk' hv => ?_) fun key' hsome => ?_
    · by_cases he : key' = key
      · subst he
        exact hself'.trans hself.symm
      · exact (hother' key' he).trans ((h.memory key' hk').trans (hother key' he).symm)
    · have hne : key' ≠ key := by
        rintro rfl
        simp [hk] at hk'
      exact h.zero key' v hk' (hv.imp (hother key' hne).symm.trans (hother' key' hne).symm.trans)
    · by_cases he : key' = key
      · obtain ⟨b, hb⟩ := Option.isSome_iff_exists.mp hb
        obtain ⟨inst, hi, -⟩ := Option.bind_eq_some_iff.mp hb
        exact he ▸ (List.getElem?_eq_some_iff.mp hi).1
      · exact h.known key' (hother key' he ▸ hsome)
  · rw [State.remember, State.remember, if_neg hb, if_neg (hbox ▸ hb)]
    exact h

theorem start {site : Site} (h : s.Contained library g u)
    (hk : Kept library s.instances site.key.place) :
    (s.start site).Contained library g (u.start (site.replaced library)) :=
  { h with
    active := congrArg (site.key.place :: ·) h.active
    underway := List.forall_mem_cons.mpr ⟨hk, h.underway⟩ }

theorem finish (h : s.Contained library g u)
    (hk : unloadable library s.instances key.place = false) (v : Value Local) :
    (s.finish key v).Contained library g (u.finish key v) := by
  have hdone : { s with active := s.active.erase (key.graph, key.node) }.Contained library g
      { u with active := u.active.erase (key.graph, key.node) } :=
    { h with
      active := congrArg (List.erase · (key.graph, key.node)) h.active
      underway := fun p hp => h.underway p (List.mem_of_mem_erase hp) }
  unfold State.finish
  dsimp only
  rw [hdone.memory key hk]
  split
  · exact hdone.remember hk (some v)
  · exact hdone

/-! ### Replaced nodes -/

end State.Contained

theorem State.site?_of_node? {s : State} {key : BoxKey} {node : Node}
    (h : node? s.instances key.graph key.node = some node) :
    ∃ inst ∈ s.instances, s.site? key = some ⟨key, inst.graph, node⟩ := by
  obtain ⟨inst, hi, hn⟩ := Option.bind_eq_some_iff.mp h
  have hi' : s.instance? key.graph = some inst := hi
  refine ⟨inst, List.mem_of_getElem? hi, ?_⟩
  simp only [State.site?, hi', bind, Option.bind_some, hn]
  rfl

theorem State.remembered?_remember_or {s : State} {key : BoxKey} {v w : Value Local}
    (h : (s.remember key (some v)).remembered? key = some w) :
    s.remembered? key = some w ∨ w = v := by
  by_cases hb : (s.box? key).isSome
  · rw [remembered?_remember_self hb] at h
    exact .inr (Option.some.inj h).symm
  · rw [remember, if_neg hb] at h
    exact .inl h

theorem Runs.constant (settings : Settings) (key : BoxKey) (graph : Graph) (id : NodeId)
    (s : State) :
    Runs settings (.node ⟨key.sibling 0, graph, .ofKind id .float [.float .zero]⟩) s
      (.zero .float1) s :=
  .unary (.plain nofun nofun) (.leaf .done)

theorem State.finish_of_active {s : State} {key : BoxKey} {active : List (Nat × Nat)}
    (h : s.active = key.place :: active) (v : Value Local) :
    s.finish key v = if ({ s with active }.remembered? key).isNone
      then { s with active }.remember key (some v) else { s with active } := by
  have herase : s.active.erase (key.graph, key.node) = active := by
    rw [h]
    exact List.erase_cons_head _ _
  unfold finish
  rw [herase]

theorem State.withActive_report (s : State) (key : BoxKey) (cause : Cause)
    (active : List (Nat × Nat)) :
    { s.report key cause with active } = { s with active }.report key cause := by
  have hdiagnose : { s with active }.diagnose key cause = s.diagnose key cause := rfl
  unfold report
  rw [hdiagnose]
  dsimp only
  split <;> rfl

namespace State.Contained

variable {settings : Settings} {library : Library} {g : Graph} {s s' u u' : State} {key : BoxKey}
  {cause : Cause}

/-- What is remembered of a box of a replaced node may change. -/
theorem withZero (h : s.Contained library g u) (m m' : List (BoxKey × Value Local))
    (hk : unloadable library s.instances key.place = true)
    (hm : ∀ key' ≠ key, m.lookup key' = s.remembered? key')
    (hm' : ∀ key' ≠ key, m'.lookup key' = u.remembered? key')
    (hz : ∀ v, m.lookup key = some v ∨ m'.lookup key = some v → v = .zero .float1) :
    { s with memory := m }.Contained library g { u with memory := m' } := by
  refine h.withMemory m m' (fun key' hk' => ?_) (fun key' v hk' hv => ?_) fun key' hsome => ?_
  · have hne : key' ≠ key := by
      rintro rfl
      simp [hk] at hk'
    rw [hm key' hne, hm' key' hne, h.memory key' hk']
  · by_cases he : key' = key
    · exact hz v (he ▸ hv)
    · rw [hm key' he, hm' key' he] at hv
      exact h.zero key' v hk' hv
  · by_cases he : key' = key
    · obtain ⟨node, hn, -⟩ := node?_of_unloadable hk
      exact he ▸ lt_of_node? hn
    · exact h.known key' (hm key' he ▸ hsome)

theorem remember_left (h : s.Contained library g u)
    (hk : unloadable library s.instances key.place = true) :
    (s.remember key (some (.zero .float1))).Contained library g u := by
  have hother := fun key' (hne : key' ≠ key) =>
    remembered?_remember_of_ne s hne (some (.zero .float1))
  have hself : ∀ v, (s.remember key (some (.zero .float1))).remembered? key = some v →
      s.remembered? key = some v ∨ v = .zero .float1 := fun v => remembered?_remember_or
  obtain ⟨m, hm⟩ := s.remember_eq key (some (.zero .float1))
  rw [hm] at hother hself ⊢
  refine h.withZero m u.memory hk hother (fun _ _ => rfl) fun v hv => ?_
  rcases hv with hv | hv
  · exact (hself v hv).elim (fun hv => h.zero key v hk (.inl hv)) id
  · exact h.zero key v hk (.inr hv)

theorem remember_right (h : s.Contained library g u)
    (hk : unloadable library s.instances key.place = true) :
    s.Contained library g (u.remember key (some (.zero .float1))) := by
  have hother := fun key' (hne : key' ≠ key) =>
    remembered?_remember_of_ne u hne (some (.zero .float1))
  have hself : ∀ v, (u.remember key (some (.zero .float1))).remembered? key = some v →
      u.remembered? key = some v ∨ v = .zero .float1 := fun v => remembered?_remember_or
  obtain ⟨m, hm⟩ := u.remember_eq key (some (.zero .float1))
  rw [hm] at hother hself ⊢
  refine h.withZero s.memory m hk (fun _ _ => rfl) hother fun v hv => ?_
  rcases hv with hv | hv
  · exact h.zero key v hk (.inl hv)
  · exact (hself v hv).elim (fun hv => h.zero key v hk (.inr hv)) id

/-- The report of a replaced call. -/
theorem report_left (h : s.Contained library g u) (key : BoxKey) (hc : cause.isUnloadable = true)
    (hd : (s.diagnose key cause).OfReplaced library g) :
    (s.report key cause).Contained library g u := by
  have hcause : (s.diagnose key cause).cause = cause := rfl
  unfold State.report
  dsimp only
  split
  · exact h
  · exact { h with
      diagnostics := by simp [h.diagnostics, hcause, hc]
      reported := List.forall_mem_append.mpr
        ⟨h.reported, List.forall_mem_singleton.mpr fun _ => hd⟩ }

theorem finish_left {active : List (Nat × Nat)} (h : { s with active }.Contained library g u)
    (ha : s.active = key.place :: active) (hk : unloadable library s.instances key.place = true)
    (hc : cause.isUnloadable = true) (hd : (s.diagnose key cause).OfReplaced library g) :
    ((s.report key cause).finish key (.zero .float1)).Contained library g u := by
  have hsame := s.sameCourse_report key cause
  have hreported := h.report_left key hc hd
  rw [finish_of_active (hsame.active.trans ha), withActive_report]
  split
  · refine hreported.remember_left ?_
    rw [(sameCourse_report _ _ _).instances]
    exact hk
  · exact hreported

/-- What was asked for is not compared. -/
theorem withRecord_left (h : s.Contained library g u) (usage : Usage) (loads : List AssetId)
    (trace : List Event) : { s with usage, loads, trace }.Contained library g u := { h with }

/-- A call that is not loaded leaves nothing but its report. -/
theorem notLoaded_left {site : Site} (h : s.Contained library g u)
    (hk : unloadable library s.instances site.key.place = true) (hc : cause.isUnloadable = true)
    (hd : (s.diagnose site.key cause).OfReplaced library g) (id : AssetId) (e : Event) :
    (((((s.start site).ask id).record e).report site.key cause).finish site.key
      (.zero .float1)).Contained library g u := by
  refine finish_left ?_ rfl hk hc hd
  dsimp only [State.record, State.ask, State.start]
  exact h.withRecord_left _ _ _

/-- The constant in the place of a call is zero, and it is evaluated without a trace. -/
theorem constant_runs (settings : Settings) (h : s.Contained library g u)
    (hk : unloadable library s.instances key.place = true) :
    ∃ u', Runs settings (.box (key.sibling 0)) u (.zero .float1) u' ∧ s.Contained library g u' := by
  cases hm : u.remembered? (key.sibling 0) with
  | some v =>
    obtain rfl := h.zero (key.sibling 0) v hk (.inr hm)
    exact ⟨u, .leaf (.remembered hm), h⟩
  | none =>
    obtain ⟨node, hnode, hu⟩ := node?_of_unloadable hk
    obtain ⟨inst, -, hsite⟩ : ∃ inst ∈ s.instances,
        s.site? (key.sibling 0) = some ⟨key.sibling 0, inst.graph, node⟩ := site?_of_node? hnode
    have hsite' := h.site?_eq hsite
    rw [Site.replaced, Graph.replaceNode_unloadable _ hu] at hsite'
    have hactive : (key.sibling 0).place ∉ u.active := by
      rw [h.active]
      intro hmem
      exact absurd ((h.underway _ hmem).eq_false.symm.trans hk) (by decide)
    refine ⟨_, .unary (.dispatched hm hsite' hactive) (.constant ..), ?_⟩
    have hdone : s.Contained library g { u.start ⟨key.sibling 0, inst.graph.replaced library,
        .ofKind node.id .float [.float .zero]⟩ with active := u.active } := { h with }
    rw [finish_of_active rfl]
    split
    · exact hdone.remember_right hk
    · exact hdone

/-! ### Calls -/

theorem withContext {c c' : CallContext} (h : s.Contained library g u)
    (hc : c' = c.replaced library) :
    { s with context := c }.Contained library g { u with context := c' } :=
  { h with context := hc }

/-- Nothing is remembered of a new graph. -/
theorem extend (h : s.Contained library g u) (inst : Instance) :
    { s with instances := s.instances ++ [inst] }.Contained library g
      { u with instances := u.instances ++ [inst.replaced library] } := by
  have hp : s.instances <+: s.instances ++ [inst] := List.prefix_append _ _
  constructor
  case instances => simp [h.instances]
  case memory =>
    intro key hk
    refine h.memory key ?_
    cases hu : unloadable library s.instances key.place with
    | false => rfl
    | true => exact absurd (hk.symm.trans (unloadable_mono hp hu)) (by decide)
  case zero =>
    intro key v hk hv
    by_cases hlt : key.graph < s.instances.length
    · have hold : unloadable library (s.instances ++ [inst]) key.place =
          unloadable library s.instances key.place := unloadable_of_lt hp hlt
      exact h.zero key v (hold.symm.trans hk) hv
    · have hnone : s.remembered? key = none :=
        Option.not_isSome_iff_eq_none.mp fun hsome => hlt (h.known key hsome)
      have hnone' : u.remembered? key = none := by
        rw [h.memory key (unloadable_of_not_lt hlt), hnone]
      exact absurd (hv.imp hnone.symm.trans hnone'.symm.trans) (by simp)
  case known =>
    intro key hsome
    exact Nat.lt_of_lt_of_le (h.known key hsome) hp.length_le
  case underway => exact fun p hm => (h.underway p hm).mono hp
  case claimed => exact fun slot hm => (h.claimed slot hm).mono hp
  case context => exact h.context
  case stage => exact h.stage
  case writer => exact h.writer
  case active => exact h.active
  case slots => exact h.slots
  case textures => exact h.textures
  case diagnostics => exact h.diagnostics
  case reported => exact h.reported

theorem newInstance (h : s.Contained library g u) (site : Site) (f : MaterialFunction) :
    u.newInstance (site.replaced library) (f.replaced library) =
      (s.newInstance site f).replaced library := by
  have hpath : callPath u.instances site.key.graph = callPath s.instances site.key.graph := by
    unfold callPath origin?
    rw [h.instances, List.getElem?_map]
    cases s.instances[site.key.graph]? with
    | none => rfl
    | some inst => cases ho : inst.origin <;> simp [Instance.replaced, Origin.replaced, ho]
  unfold State.newInstance
  rw [Site.id_replaced, show (site.replaced library).key = site.key from rfl, hpath]
  rfl

theorem instantiate {site : Site} {f : MaterialFunction} {graph : Nat}
    (h : s.Contained library g u) (hi : s.instantiate site f = (graph, s')) :
    ∃ u', u.instantiate (site.replaced library) (f.replaced library) = (graph, u') ∧
      s'.Contained library g u' := by
  have hold : u.instanceOf? (site.replaced library).key.graph (site.replaced library).key.node =
      s.instanceOf? site.key.graph site.key.node := State.instanceOf?_replaced h.instances _ _
  cases hs : s.instanceOf? site.key.graph site.key.node with
  | some i =>
    rw [instantiate_of_some hs] at hi
    cases hi
    exact ⟨u, instantiate_of_some (hold.trans hs) _, h⟩
  | none =>
    rw [instantiate_of_none hs] at hi
    cases hi
    have hlength : u.instances.length = s.instances.length := by rw [h.instances, List.length_map]
    refine ⟨_, (instantiate_of_none (hold.trans hs) _).trans (by rw [hlength]), ?_⟩
    rw [h.newInstance]
    exact (h.extend (s.newInstance site f)).record _ _

/-! ### Requests of recipes -/

theorem effect {r r' : Recipe Local (Value Local)} (h : s.Contained library g u)
    (hk : Kept library s.instances key.place) (hr : r.CallFree)
    (he : r.effect? settings key s = some (r', s')) :
    ∃ u', r.effect? (settings.replaced library) key u = some (r', u') ∧
      s'.Contained library g u' := by
  obtain ⟨n, hr⟩ := hr
  cases hr with
  | done => cases he
  | operand => cases he
  | declare =>
    cases he
    exact ⟨_, by rw [Recipe.effect?, h.writer], h.write _⟩
  | block =>
    cases he
    exact ⟨_, by rw [Recipe.effect?, h.writer], h.write _⟩
  | comment =>
    cases he
    refine ⟨_, rfl, ?_⟩
    change State.Contained library g (if settings.comments then _ else _)
      (if settings.comments then _ else _)
    split
    · rw [h.writer]
      exact h.write _
    · exact h
  | report hc =>
    cases he
    exact ⟨_, rfl, h.report key (Cause.isUnloadable_eq_false hc)⟩
  | use =>
    cases he
    exact ⟨_, rfl, h.use _⟩
  | sample =>
    cases he
    exact ⟨_, rfl, h.sample _⟩
  | @remember _ box value =>
    cases he
    have hbox : unloadable library s.instances (key.sibling box).place = false := hk.eq_false
    exact ⟨_, rfl, h.remember hbox value⟩
  | @claim _ input =>
    obtain ⟨hclaim, hend⟩ := h.claim settings hk (key.sibling input)
    cases he
    exact ⟨_, by rw [Recipe.effect?, hclaim], hend⟩

end State.Contained

/-! ### Whole evaluations -/

/-- The task with the calls replaced. -/
def Task.replaced (library : Library) (table : List Instance) : Task → Task
  | box key => .box (reading library table key)
  | node site => .node (site.replaced library)
  | recipe key r => .recipe key r

/-- The task is not the recipe of a replaced node. -/
def Task.Kept (library : Library) (table : List Instance) : Task → Prop
  | box _ => True
  | node site => site.node.unloadable library = false
  | recipe key _ => CallTree.Kept library table key.place

/-- What is asked of the graphs of a material: custom code feeds no call that cannot be loaded, and
no such call is an output of a function. -/
structure Containable (library : Library) (g : Graph) : Prop where
  material : g.SparesCustomCode library
  functions : ∀ id f, library.load id = .ok f → f.graph.SparesCustomCode library
  outputs : ∀ id f, library.load id = .ok f → f.SparesOutputs library

section

variable {settings : Settings} {library : Library} {g : Graph} {s s' : State} {key : BoxKey}
  {site : Site}

/-- A site looks the same to its recipe if it is not replaced. -/
theorem State.Sound.alike_replaced (hr : settings.resolver = ⟨[library]⟩)
    (hg : Containable library g) (hs : s.Sound settings g) (hsite : s.site? key = some site)
    (hu : site.node.unloadable library = false) : site.Alike (site.replaced library) := by
  have hall := hs.tree.forall_loaded (Q := fun graph => graph.SparesCustomCode library) hg.material
    fun earlier id f hl => hg.functions id f (by rwa [hr, Resolver.load_single] at hl)
  obtain ⟨inst, node, hi, hn, rfl⟩ := State.site?_some hsite
  exact Site.alike_replaced (hall inst (List.mem_of_getElem? hi)) hn hu

/-- The report of a call that cannot be loaded names a replaced node. -/
theorem State.Sound.ofReplaced (hr : settings.resolver = ⟨[library]⟩) (hs : s.Sound settings g)
    (hsite : s.site? key = some site) (hu : site.node.unloadable library = true) :
    (s.diagnose key (.missingOrInvalidAsset site.node.callee)).OfReplaced library g := by
  obtain ⟨inst, node, hi, hn, rfl⟩ := State.site?_some hsite
  have hid := State.diagnose_node (State.node?_of_site? hsite) (.missingOrInvalidAsset node.callee)
  refine ⟨inst.graph, node, ?_, List.mem_of_getElem? hn, hu, hid.symm, rfl⟩
  rw [State.diagnose_function]
  by_cases h0 : key.graph = 0
  · obtain rfl : inst = ⟨g, none⟩ := Option.some.inj (hi.symm.trans (h0 ▸ hs.tree.root))
    exact .inl ⟨by rw [h0, hs.tree.origin?_root]; rfl, rfl⟩
  · obtain ⟨o, ho, hgraph⟩ := hs.tree.made key.graph inst hi h0
    have horigin : origin? s.instances key.graph = some o :=
      Option.bind_eq_some_iff.mpr ⟨inst, hi, ho⟩
    obtain ⟨-, caller, -, -, earlier, hl⟩ := hs.tree.caller key.graph o horigin
    rw [hr, Resolver.load_single] at hl
    exact .inr ⟨caller.callee, o.function, hl, congrArg _ horigin, hgraph⟩

/-- A call whose function is under evaluation was loaded. -/
theorem State.Sound.kept_argument {frame : CallFrame} {id : NodeId} {argument : BoxKey}
    (hr : settings.resolver = ⟨[library]⟩) (hs : s.Sound settings g)
    (hcur : s.context.current? = some key.graph) (hf : s.context.currentFrame? = some frame)
    (ha : frame.argument? id = some argument) :
    CallTree.Kept library s.instances argument.place := by
  obtain ⟨o, ho, hcaller, hsite, -⟩ := hs.context.currentFrame hcur hf
  obtain ⟨-, node, hn, -, _, hl⟩ := hs.tree.caller key.graph o ho
  rw [hr, Resolver.load_single] at hl
  unfold CallFrame.argument? at ha
  dsimp only at ha
  split at ha
  · cases ha
    refine ⟨node, ?_, Node.unloadable_of_ok hl⟩
    rw [BoxKey.place, hcaller, hsite]
    exact hn
  · cases ha

/-- The output of a function is fed as it was: an output that is a replaced call is not fed. -/
theorem State.Sound.producer?_output {graph output : Nat} {u : State} {o : Origin} {id : AssetId}
    (hg : Containable library g) (hs : s.Sound settings g)
    (hu : u.instances = s.instances.map (·.replaced library))
    (ho : origin? s.instances graph = some o) (hl : library.load id = .ok o.function)
    (houtput : Engine.outputNode? s site o.function graph = some output) :
    u.producer? ⟨graph, output, 0⟩ =
      (s.producer? ⟨graph, output, 0⟩).map (reading library s.instances) := by
  cases hk : unloadable library s.instances (BoxKey.place ⟨graph, output, 0⟩) with
  | false => exact State.producer?_replaced hu hk
  | true =>
    rw [State.producer?_constant hu hk]
    obtain ⟨-, inst, hi, hgraph⟩ := hs.tree.graph_of_origin? ho
    have hi' : s.instance? graph = some inst := hi
    obtain ⟨node, hn, hunloadable⟩ : ∃ node, node? s.instances graph output = some node ∧
        node.unloadable library = true := node?_of_unloadable hk
    rw [CallTree.node?, hi, Option.bind_some] at hn
    have hunfed : (node.box? 0).bind (·.connection) = none := by
      simp only [Engine.outputNode?, bind, Option.bind_eq_some_iff, hi', Option.some.injEq]
        at houtput
      obtain ⟨i, hindex, name, hname, _, rfl, hfind⟩ := houtput
      rw [hgraph] at hfind hn
      exact (hg.outputs id o.function hl).unfed hindex hname hfind hn hunloadable
    simp only [State.producer?, State.box?, hi', Option.bind_some, Graph.box?, hn]
    cases hb : node.box? 0 with
    | none => rfl
    | some b =>
      rw [hb, Option.bind_some] at hunfed
      rw [Option.bind_some, hunfed]
      rfl

theorem State.unloadable_of_site? (library : Library) (h : s.site? key = none) :
    unloadable library s.instances key.place = false := by
  cases hk : unloadable library s.instances key.place with
  | false => rfl
  | true =>
    obtain ⟨node, hn, -⟩ := node?_of_unloadable hk
    obtain ⟨inst, -, hsite⟩ := State.site?_of_node? hn
    exact absurd (hsite.symm.trans h) nofun

theorem Settings.load_replaced {f : MaterialFunction} {n : Nat} {id : AssetId}
    (hr : settings.resolver = ⟨[library]⟩) (hl : settings.resolver.load n id = .ok f) (m : Nat) :
    (settings.replaced library).resolver.load m id = .ok (f.replaced library) := by
  rw [hr, Resolver.load_single] at hl
  rw [show (settings.replaced library).resolver = ⟨[library.replaced]⟩ from rfl,
    Resolver.load_single, Library.load_replaced, hl]
  rfl

/-- A call that makes or finds its graph does so with the calls replaced, and its output is fed from
the corresponding box. -/
theorem State.Contained.made {u : State} {f : MaterialFunction} {graph : Nat}
    (hr : settings.resolver = ⟨[library]⟩) (hg : Containable library g) (hs : s.Sound settings g)
    (hl : (Task.node site).Located s) (ha : site.Alike (site.replaced library))
    (hc : s.Contained library g u) (hk : site.node.kind = .materialFunction)
    (hload : settings.resolver.load s.loads.length site.node.callee = .ok f)
    (hcalling : s.isCalling site.node.callee = false)
    (hi : (s.ask site.node.callee).instantiate site f = (graph, s')) :
    ∃ u', (settings.replaced library).resolver.load u.loads.length
        (site.replaced library).node.callee = .ok (f.replaced library) ∧
      u.isCalling (site.replaced library).node.callee = false ∧
      (u.ask (site.replaced library).node.callee).instantiate (site.replaced library)
        (f.replaced library) = (graph, u') ∧
      s'.Contained library g u' ∧
      Engine.outputNode? u' (site.replaced library) (f.replaced library) graph =
        Engine.outputNode? s' site f graph ∧
      ∀ output, Engine.outputNode? s' site f graph = some output →
        u'.producer? ⟨graph, output, 0⟩ =
          (s'.producer? ⟨graph, output, 0⟩).map (reading library s'.instances) := by
  obtain ⟨u', hi', hc'⟩ := (hc.ask site.node.callee).instantiate hi
  obtain ⟨hs', o, ho, hcaller, hsite, -⟩ := hs.ask.instantiate hl.1 hl.2 hk hload hcalling hi
  have hn := node?_mono (s.grows_made hi).instances (State.node?_of_site? hl.2)
  rw [← hcaller, ← hsite] at hn
  obtain rfl := hs'.tree.function_eq hr ho hn hload
  have hload' := Settings.load_replaced hr hload u.loads.length
  rw [← State.isCalling_replaced hc.instances hc.context] at hcalling
  rw [hr, Resolver.load_single] at hload
  rw [ha.callee]
  refine ⟨u', hload', hcalling, hi', hc', State.outputNode?_replaced hc'.instances _ _ _, ?_⟩
  exact fun output houtput => hs'.producer?_output hg hc'.instances ho hload houtput

end

/-- With the calls replaced, a task gives the same value and ends in a corresponding state. -/
theorem Runs.contained {settings : Settings} {library : Library} {g : Graph} {t : Task}
    {s s' u : State} {v : Value Local} (hr : settings.resolver = ⟨[library]⟩)
    (hg : Containable library g) (h : Runs settings t s v s') (hs : s.Sound settings g)
    (hl : t.Located s) (ht : t.Kept library s.instances) (hc : s.Contained library g u) :
    ∃ u', Runs (settings.replaced library) (t.replaced library s.instances) u v u' ∧
      s'.Contained library g u' := by
  -- each rule of the first run is the next rule of the second one, except at a replaced node: there
  -- the second run evaluates the constant
  induction h generalizing u with
  | @leaf _ s v _ h =>
    cases h with
    | @remembered key _ _ hm =>
      change ∃ u', Runs _ (.box (reading library s.instances key)) u v u' ∧ _
      cases hk : unloadable library s.instances key.place with
      | false =>
        rw [reading_loadable hk]
        exact ⟨u, .leaf (.remembered ((hc.memory key hk).trans hm)), hc⟩
      | true =>
        obtain rfl := hc.zero key v hk (.inl hm)
        rw [reading_unloadable hk]
        exact hc.constant_runs _ hk
    | @absent key _ hm hsite =>
      have hk := State.unloadable_of_site? library hsite
      change ∃ u', Runs _ (.box (reading library s.instances key)) u _ u' ∧ _
      rw [reading_loadable hk]
      refine ⟨u, .leaf (.absent ((hc.memory key hk).trans hm) ?_), hc⟩
      rw [State.site?_replaced hc.instances, hsite]
      rfl
    | @reentered key _ site hm hsite ha =>
      have hk : unloadable library s.instances key.place = false := (hc.underway _ ha).eq_false
      change ∃ u', Runs _ (.box (reading library s.instances key)) u _ u' ∧ _
      rw [reading_loadable hk, ← Site.id_replaced library site,
        ← State.boxType_replaced hc.instances hk]
      exact ⟨_, .leaf (.reentered ((hc.memory key hk).trans hm) (hc.site?_eq hsite)
        (hc.active ▸ ha)), hc.report key rfl⟩
    | @notLoaded _ _ e hk hl₁ =>
      rw [hr, Resolver.load_single] at hl₁
      exact absurd (ht.symm.trans (Node.unloadable_iff.mpr ⟨hk, e, hl₁⟩)) nofun
    | recursive hk hl₁ hcalling =>
      have halike := hs.alike_replaced hr hg hl.2 ht
      rw [← State.isCalling_replaced hc.instances hc.context, ← halike.callee] at hcalling
      rw [← halike.callee] at hl₁ ⊢
      have hl₁' := Settings.load_replaced hr hl₁ u.loads.length
      exact ⟨_, .leaf (.recursive (halike.kind.trans hk) hl₁' hcalling), (hc.ask _).report _ rfl⟩
    | unlisted hk hl₁ hcalling hi ho =>
      have halike := hs.alike_replaced hr hg hl.2 ht
      obtain ⟨u₁, hl₁', hcalling', hi', hc₁, houtput, -⟩ :=
        hc.made hr hg hs hl halike hk hl₁ hcalling hi
      exact ⟨_, .leaf (.unlisted (halike.kind.trans hk) hl₁' hcalling' hi' (houtput.trans ho)),
        hc₁.report _ rfl⟩
    | @unfed _ _ _ _ _ output hk hl₁ hcalling hi ho hproducer =>
      have halike := hs.alike_replaced hr hg hl.2 ht
      obtain ⟨u₁, hl₁', hcalling', hi', hc₁, houtput, hfed⟩ :=
        hc.made hr hg hs hl halike hk hl₁ hcalling hi
      have hproducer' := (hfed output ho).trans (congrArg _ hproducer)
      exact ⟨u₁, .leaf (.unfed (halike.kind.trans hk) hl₁' hcalling' hi' (houtput.trans ho)
        hproducer'), hc₁⟩
    | @outside site _ hk hf =>
      have halike := hs.alike_replaced hr hg hl.2 ht
      refine ⟨_, .leaf (.outside (halike.kind.trans hk) fun frame' hf' => ?_),
        hc.report site.key rfl⟩
      rw [hc.context, CallContext.currentFrame?_replaced] at hf'
      obtain ⟨frame, hframe, rfl⟩ := Option.map_eq_some_iff.mp hf'
      exact hf frame hframe
    | @undeclared site _ _ hk hf hgraph ha =>
      have halike := hs.alike_replaced hr hg hl.2 ht
      have hf' := hc.currentFrame?_eq hf
      rw [← Site.id_replaced library site] at ha ⊢
      exact ⟨_, .leaf (.undeclared (halike.kind.trans hk) hf' hgraph ha), hc.report site.key rfl⟩
    | done => exact ⟨u, .leaf .done, hc⟩
  | @unary _ s v _ _ h hrun ih =>
    obtain ⟨hs₁, hl₁⟩ := h.sound hs hl
    cases h with
    | @dispatched key _ site _ s' hm hsite ha =>
      have hn := State.node?_of_site? hsite
      change ∃ u', Runs _ (.box (reading library s.instances key)) u _ u' ∧ _
      cases hu : site.node.unloadable library with
      | true =>
        have hk : unloadable library s.instances key.place = true :=
          (unloadable_of_node? hn).trans hu
        obtain ⟨hkind, e, he⟩ := Node.unloadable_iff.mp hu
        have hcall : settings.resolver.load (s.start site).loads.length site.node.callee =
            .error e := by rw [hr, Resolver.load_single, he]
        have hnode : Runs settings (.node site) (s.start site) v s' := hrun
        obtain ⟨rfl, rfl⟩ := hnode.unique (.leaf (.notLoaded hkind hcall))
        obtain ⟨u', hrun', hc'⟩ := hc.constant_runs (settings.replaced library) hk
        have hreport := hs.ofReplaced hr hsite hu
        obtain rfl := State.key_of_site? hsite
        rw [reading_unloadable hk]
        exact ⟨u', hrun', hc'.notLoaded_left hk rfl hreport _ _⟩
      | false =>
        obtain rfl := State.key_of_site? hsite
        have hkept : Kept library s.instances site.key.place := ⟨site.node, hn, hu⟩
        obtain ⟨u', hrun', hc'⟩ := ih hs₁ hl₁ hu (hc.start hkept)
        rw [reading_loadable hkept.eq_false]
        refine ⟨_, .unary (.dispatched ((hc.memory _ hkept.eq_false).trans hm) (hc.site?_eq hsite)
          (hc.active ▸ ha)) hrun', ?_⟩
        exact hc'.finish (hkept.mono hrun.grows.instances).eq_false v
    | @plain site _ _ _ hplain hi =>
      have halike := hs.alike_replaced hr hg hl.2 ht
      have hrecipe : ((site.replaced library).recipe settings.domain u.stage : Recipe Local _) =
          site.recipe settings.domain s.stage := by rw [halike.recipe, hc.stage]
      obtain ⟨u', hrun', hc'⟩ := ih hs₁ hl₁ ⟨site.node, State.node?_of_site? hl.2, ht⟩ hc
      have hrun₁ : Runs (settings.replaced library) (.recipe site.key
          (site.recipe settings.domain s.stage)) u v u' := hrun'
      rw [← hrecipe] at hrun₁
      exact ⟨u', .unary (.plain (halike.kind ▸ hplain) (halike.kind ▸ hi)) hrun₁, hc'⟩
    | @called site _ f graph s₁ output _ _ _ hk hload hcalling hi ho hproducer =>
      have halike := hs.alike_replaced hr hg hl.2 ht
      obtain ⟨u₁, hload', hcalling', hi', hc₁, houtput, hfed⟩ :=
        hc.made hr hg hs hl halike hk hload hcalling hi
      have hproducer' := (hfed output ho).trans (congrArg _ hproducer)
      have hentered := hc₁.withContext
        (c := s₁.context.enter ⟨site.key.graph, site.key.node, graph, f⟩)
        (congrArg (·.enter ⟨site.key.graph, site.key.node, graph, f.replaced library⟩) hc₁.context)
      obtain ⟨u₂, hrun', hc₂⟩ := ih hs₁ hl₁ trivial hentered
      refine ⟨_, .unary (.called (halike.kind.trans hk) hload' hcalling' hi' (houtput.trans ho)
        hproducer') hrun', hc₂.withContext ?_⟩
      rw [hc₂.context, CallContext.leave_replaced]
    | @passed site _ frame box _ _ _ hk hf hgraph ha hproducer =>
      have halike := hs.alike_replaced hr hg hl.2 ht
      have hf' := hc.currentFrame?_eq hf
      have hproducer' := hc.producer?_eq box (hs.kept_argument hr hl.1 hf ha).eq_false hproducer
      obtain ⟨u₁, hrun', hc₁⟩ := ih hs₁ hl₁ trivial
        (hc.withContext (congrArg CallContext.inCaller hc.context))
      rw [← Site.id_replaced library site] at ha
      exact ⟨_, .unary (.passed (halike.kind.trans hk) hf' hgraph ha hproducer') hrun',
        hc₁.withContext (congrArg (·.back frame.graph) hc₁.context)⟩
    | @defaulted site _ _ box _ _ hk hf hgraph ha hproducer =>
      have halike := hs.alike_replaced hr hg hl.2 ht
      have hf' := hc.currentFrame?_eq hf
      have hproducer' := hc.producer?_eq box (hs.kept_argument hr hl.1 hf ha).eq_false hproducer
      obtain ⟨u₁, hrun', hc₁⟩ := ih hs₁ hl₁ ⟨site.node, State.node?_of_site? hl.2, ht⟩ hc
      rw [← Site.id_replaced library site] at ha
      refine ⟨u₁, .unary (.defaulted (halike.kind.trans hk) hf' hgraph ha hproducer') ?_, hc₁⟩
      rw [halike.operandOrParam]
      exact hrun'
    | @unconnected key _ box _ _ _ hproducer =>
      have hproducer' := hc.producer?_eq (key.sibling box) ht.eq_false hproducer
      obtain ⟨u₁, hnext', hc₁⟩ := ih hs₁ hl₁ ht hc
      exact ⟨u₁, .unary (.unconnected hproducer') hnext', hc₁⟩
    | effect he =>
      obtain ⟨u₁, he', hc₁⟩ := hc.effect ht hl.2 he
      obtain ⟨u₂, hnext', hc₂⟩ :=
        ih hs₁ hl₁ (CallTree.Kept.mono (s.grows_effect he).instances ht) hc₁
      exact ⟨u₂, .unary (.effect he') hnext', hc₂⟩
  | binary h hrun _ ih ihn =>
    obtain ⟨hs₁, hl₁⟩ := h.sound_first hs hl
    obtain ⟨hs₂, hl₂⟩ := h.sound_second hl hrun (hrun.sound hs₁ hl₁)
    cases h with
    | @connected key _ box _ _ _ _ _ _ hproducer =>
      have hproducer' := hc.producer?_eq (key.sibling box) ht.eq_false hproducer
      obtain ⟨u₁, hrun', hc₁⟩ := ih hs₁ hl₁ trivial hc
      obtain ⟨u₂, hnext', hc₂⟩ :=
        ihn hs₂ hl₂ (CallTree.Kept.mono hrun.grows.instances ht) hc₁
      exact ⟨u₂, .binary (.connected hproducer') hrun' hnext', hc₂⟩

end ShaderGraph
