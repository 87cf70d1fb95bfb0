import ShaderGraph.Proofs.Balance
import ShaderGraph.Proofs.Enactment

/-! The features and textures of a material are exact. A feature is set by one step of an evaluation
and shows by another, and other nodes can be evaluated in between; but every script that has one of
the two steps has the other as well. -/

namespace ShaderGraph

/-! ### What shows that a feature is used -/

theorem Usage.contains_insert_iff (u : Usage) (f f' : Feature) :
    (u.insert f').contains f = true ↔ u.contains f = true ∨ f' = f := by
  cases f' <;> cases f <;> simp [insert, contains]

namespace State

/-- The state shows that a feature is used, without regard to the features that are set: there is an
interpolant slot, the depth texture of the scene, a block of custom code among the statements, a
request for a function, or a node for the vertex color that got under way. -/
inductive Shows (s : State) : Feature → Prop
  | interpolants (h : s.slots ≠ []) : Shows s .interpolants
  | sceneDepth (h : .sceneDepth ∈ s.textures) : Shows s .sceneDepth
  | customCode {body : Code Local} (h : .block body ∈ s.writer.statements) : Shows s .customCode
  | functions (h : s.loads ≠ []) : Shows s .functions
  | vertexColor {key : BoxKey} {id : NodeId} {context : CallContext} {active : List (Nat × Nat)}
      (h : .dispatched key .vertexColor id context active ∈ s.trace) : Shows s .vertexColor

section Shows

variable {s : State}

@[simp] theorem shows_interpolants : s.Shows .interpolants ↔ s.slots ≠ [] := by
  refine ⟨fun h => ?_, .interpolants⟩
  cases h with
  | interpolants h => exact h

@[simp] theorem shows_sceneDepth : s.Shows .sceneDepth ↔ .sceneDepth ∈ s.textures := by
  refine ⟨fun h => ?_, .sceneDepth⟩
  cases h with
  | sceneDepth h => exact h

@[simp] theorem shows_customCode :
    s.Shows .customCode ↔ ∃ body, .block body ∈ s.writer.statements := by
  refine ⟨fun h => ?_, fun ⟨_, h⟩ => .customCode h⟩
  cases h with
  | customCode h => exact ⟨_, h⟩

@[simp] theorem shows_functions : s.Shows .functions ↔ s.loads ≠ [] := by
  refine ⟨fun h => ?_, .functions⟩
  cases h with
  | functions h => exact h

@[simp] theorem shows_vertexColor : s.Shows .vertexColor ↔ ∃ key id context active,
    .dispatched key .vertexColor id context active ∈ s.trace := by
  refine ⟨fun h => ?_, fun ⟨_, _, _, _, h⟩ => .vertexColor h⟩
  cases h with
  | vertexColor h => exact ⟨_, _, _, _, h⟩

end Shows

/-- Between the two states, the feature is set just if `u`, and begins to show just if `e`, but for
changes that both set and show it. -/
def Gains (f : Feature) (s s' : State) (u e : Prop) : Prop :=
  ∃ both : Prop, (s'.usage.contains f = true ↔ s.usage.contains f = true ∨ u ∨ both) ∧
    (s'.Shows f ↔ s.Shows f ∨ e ∨ both)

namespace Gains

variable {f : Feature} {s s' s'' : State} {u u' e e' both : Prop}

theorem of_iff (hu : s'.usage.contains f = true ↔ s.usage.contains f = true ∨ u)
    (he : s'.Shows f ↔ s.Shows f ∨ e) : Gains f s s' u e :=
  ⟨False, by rwa [or_false], by rwa [or_false]⟩

theorem trans (h : Gains f s s' u e) (h' : Gains f s' s'' u' e') :
    Gains f s s'' (u ∨ u') (e ∨ e') := by
  obtain ⟨both, hu, he⟩ := h
  obtain ⟨both', hu', he'⟩ := h'
  refine ⟨both ∨ both', ?_, ?_⟩
  · rw [hu', hu]
    simp only [or_assoc, or_left_comm]
  · rw [he', he]
    simp only [or_assoc, or_left_comm]

/-- What is both set and shown need not be mentioned. -/
theorem level (h : Gains f s s' u e) (both : Prop) (hu : u ↔ u' ∨ both) (he : e ↔ e' ∨ both) :
    Gains f s s' u' e' := by
  obtain ⟨both', hu', he'⟩ := h
  refine ⟨both ∨ both', ?_, ?_⟩
  · rw [hu', hu, or_assoc]
  · rw [he', he, or_assoc]

theorem congr (h : Gains f s s' u e) (hu : u ↔ u') (he : e ↔ e') : Gains f s s' u' e' :=
  h.level False (by rw [or_false, hu]) (by rw [or_false, he])

/-- Nothing of note comes first. -/
theorem of_left (h : Gains f s s' False False) (h' : Gains f s' s'' u e) : Gains f s s'' u e :=
  (h.trans h').congr (by simp) (by simp)

/-- Nothing of note comes last. -/
theorem of_right (h : Gains f s s' u e) (h' : Gains f s' s'' False False) : Gains f s s'' u e :=
  (h.trans h').congr (by simp) (by simp)

end Gains

/-- Nothing that features depend on is different. -/
structure SameUse (s s' : State) : Prop where
  usage : s'.usage = s.usage
  slots : s'.slots = s.slots
  textures : s'.textures = s.textures
  blocks : ∀ body, .block body ∈ s'.writer.statements ↔ .block body ∈ s.writer.statements
  loads : s'.loads = s.loads
  dispatches : ∀ key kind id context active, .dispatched key kind id context active ∈ s'.trace ↔
    .dispatched key kind id context active ∈ s.trace

namespace SameUse

variable {s s' s'' : State} {key : BoxKey}

theorem refl (s : State) : s.SameUse s :=
  ⟨rfl, rfl, rfl, fun _ => .rfl, rfl, fun _ _ _ _ _ => .rfl⟩

theorem trans (h : s.SameUse s') (h' : s'.SameUse s'') : s.SameUse s'' :=
  ⟨h'.usage.trans h.usage, h'.slots.trans h.slots, h'.textures.trans h.textures,
    fun body => (h'.blocks body).trans (h.blocks body), h'.loads.trans h.loads,
    fun key kind id context active => (h'.dispatches key kind id context active).trans
      (h.dispatches key kind id context active)⟩

theorem symm (h : s.SameUse s') : s'.SameUse s :=
  ⟨h.usage.symm, h.slots.symm, h.textures.symm, fun body => (h.blocks body).symm, h.loads.symm,
    fun key kind id context active => (h.dispatches key kind id context active).symm⟩

theorem shows {f : Feature} (h : s.SameUse s') (hf : s.Shows f) : s'.Shows f := by
  cases hf with
  | interpolants hs => exact .interpolants (h.slots ▸ hs)
  | sceneDepth ht => exact .sceneDepth (h.textures ▸ ht)
  | customCode hb => exact .customCode ((h.blocks _).mpr hb)
  | functions hl => exact .functions (h.loads ▸ hl)
  | vertexColor hd => exact .vertexColor ((h.dispatches _ _ _ _ _).mpr hd)

theorem gains (h : s.SameUse s') (f : Feature) : Gains f s s' False False :=
  .of_iff (by rw [h.usage, or_false]) (by rw [or_false]; exact ⟨h.symm.shows, h.shows⟩)

theorem record {e : Event} (s : State)
    (he : ∀ key kind id context active, e ≠ .dispatched key kind id context active) :
    s.SameUse (s.record e) := by
  refine ⟨rfl, rfl, rfl, fun _ => .rfl, rfl, fun key kind id context active => ?_⟩
  rw [State.record, List.mem_cons, or_iff_right (he key kind id context active).symm]

theorem report (s : State) (key : BoxKey) (cause : Cause) : s.SameUse (s.report key cause) := by
  unfold State.report
  dsimp only
  split
  · exact refl s
  · exact { record s (e := .reported _) (by simp) with }

theorem remember (s : State) (key : BoxKey) (value : Option (Value Local)) :
    s.SameUse (s.remember key value) := by
  obtain ⟨memory, hm⟩ := s.remember_eq key value
  rw [hm]
  exact { refl s with }

theorem finish (s : State) (key : BoxKey) (v : Value Local) : s.SameUse (s.finish key v) := by
  obtain ⟨memory, hf⟩ := s.finish_eq key v
  rw [hf]
  exact { refl s with }

theorem instantiate {site : Site} {function : MaterialFunction} {graph : Nat}
    (h : s.instantiate site function = (graph, s')) : s.SameUse s' := by
  unfold State.instantiate at h
  split at h
  · cases h
    exact refl s
  · cases h
    exact { record s (e := .instantiated _ _) (by simp) with }

theorem withContext (s : State) (context : CallContext) : s.SameUse { s with context } :=
  { refl s with }

theorem push {statement : Statement} (s : State) (h : ∀ body, statement ≠ .block body) :
    s.SameUse { s with writer := s.writer.push statement } := by
  refine { refl s with blocks := fun body => ?_ }
  rw [Writer.push, List.mem_append, List.mem_singleton, or_iff_left (h body).symm]

theorem beginStage (s : State) (stage : Stage) : s.SameUse (s.beginStage stage) :=
  { record s (e := .stageBegun stage) (by simp) with }

end SameUse

namespace Gains

variable {f : Feature}

theorem use (s : State) (feature : Feature) : Gains f s (s.use feature) (feature = f) False := by
  refine .of_iff (s.usage.contains_insert_iff f feature) ?_
  cases f <;> simp [State.use]

/-- A node for the vertex color shows as soon as it gets under way. -/
theorem start (s : State) (site : Site) :
    Gains f s (s.start site) False (f = .vertexColor ∧ site.node.kind = .vertexColor) := by
  refine .of_iff (by rw [or_false]; rfl) ?_
  cases f with
  | vertexColor =>
    rw [shows_vertexColor, shows_vertexColor]
    constructor
    · rintro ⟨key, id, context, active, h⟩
      rcases List.mem_cons.mp h with h | h
      · injection h with _ hk
        exact .inr ⟨rfl, hk.symm⟩
      · exact .inl ⟨key, id, context, active, h⟩
    · rintro (⟨key, id, context, active, h⟩ | ⟨-, hk⟩)
      · exact ⟨key, id, context, active, List.mem_cons_of_mem _ h⟩
      · exact ⟨site.key, site.node.id, s.context, s.active, hk ▸ List.mem_cons_self⟩
  | _ => simp [State.start, State.record]

/-- A request for a function sets its feature and shows it. -/
theorem ask (s : State) (id : AssetId) : Gains f s (s.ask id) False False := by
  refine ⟨.functions = f, ?_, ?_⟩
  · rw [false_or]
    exact s.usage.contains_insert_iff f .functions
  · cases f <;> simp [State.ask, State.use]

theorem sample (s : State) (texture : SceneTexture) :
    Gains f s (s.sample texture) False (f = .sceneDepth) := by
  cases texture
  unfold State.sample
  split
  next h => exact .of_iff (by rw [or_false]) (by cases f <;> simp [h])
  next h => exact .of_iff (by rw [or_false]) (by cases f <;> simp)

theorem block (s : State) (body : Code Local) :
    Gains f s { s with writer := s.writer.push (.block body) } False (f = .customCode) :=
  .of_iff (by rw [or_false]) (by cases f <;> simp [Writer.push])

theorem claim (settings : Settings) (s : State) (key input : BoxKey) :
    Gains f s (s.claim settings key input).2 False
      (.use f ∈ (s.claim settings key input).1.acts) := by
  unfold State.claim
  split
  next => exact .of_iff (by rw [or_false]) (by simp [Claim.acts])
  next =>
    split
    next => exact .of_iff (by rw [or_false]) (by simp [Claim.acts])
    next => exact .of_iff (by rw [or_false]) (by cases f <;> simp [Claim.acts])

end Gains

end State

/-! ### Scripts -/

/-- The feature that shows after a step. -/
def Act.shown? : Act → Option Feature
  | sample _ => some .sceneDepth
  | block => some .customCode
  | _ => none

namespace Job

/-- The job is yet to set the feature, without regard to the boxes that it evaluates. -/
def Uses (f : Feature) : Job → Prop
  | .box _ => False
  | .node site => f = .vertexColor ∧ site.node.kind = .vertexColor
  | .acts _ rest => .use f ∈ rest

/-- The job is yet to show the feature, without regard to the boxes that it evaluates. -/
def Shows (f : Feature) : Job → Prop
  | .box _ => False
  | .node _ => False
  | .acts _ rest => ∃ act ∈ rest, act.shown? = some f

end Job

/-- A script sets a feature just if it shows it; but a node for the vertex color shows by itself. -/
theorem Site.script_uses_iff (site : Site) (stage : Stage) (f : Feature) :
    .use f ∈ site.script stage ↔
      (f = .vertexColor ∧ site.node.kind = .vertexColor) ∨
        ∃ act ∈ site.script stage, act.shown? = some f := by
  unfold Site.script
  cases hk : site.node.kind with
  | customCode =>
    dsimp only
    split
    · simpa [hk, Site.customScript, Act.shown?, or_and_right, exists_or] using eq_comm
    · simp
  | interpolateVsToPs => cases stage <;> simp [Act.shown?]
  | depthFade => simp [Act.shown?, eq_comm]
  | _ => simp [Act.shown?]

section

open State

variable {settings : Settings} {f : Feature} {key : BoxKey} {act : Act} {acts : List Act}
  {s s₁ s' : State}

/-- One step of a script and what is left of it. -/
theorem State.Gains.step (h : Gains f s s₁ (act = .use f) (act.shown? = some f))
    (h' : Gains f s₁ s' ((Job.acts key acts).Uses f) ((Job.acts key acts).Shows f)) :
    Gains f s s' ((Job.acts key (act :: acts)).Uses f) ((Job.acts key (act :: acts)).Shows f) := by
  refine (h.trans h').congr ?_ ?_
  · simp [Job.Uses, eq_comm]
  · simp [Job.Shows]

/-- A step that neither sets nor shows anything. -/
theorem State.Gains.skip (hu : ∀ f, act ≠ .use f) (he : act.shown? = none)
    (h : Gains f s s' ((Job.acts key acts).Uses f) ((Job.acts key acts).Shows f)) :
    Gains f s s' ((Job.acts key (act :: acts)).Uses f) ((Job.acts key (act :: acts)).Shows f) :=
  .step (((SameUse.refl s).gains f).congr (by simp [hu]) (by simp [he])) h

theorem State.Gains.outer {site : Site} (h : Gains f s s' False False)
    (hk : site.node.kind ≠ .vertexColor) :
    Gains f s s' ((Job.node site).Uses f) ((Job.node site).Shows f) :=
  h.congr (by simp [Job.Uses, hk]) .rfl

/-- What an enactment adds are the features that the job itself sets or shows, and others that are
both set and shown. -/
theorem Enacts.gains {job : Job} (h : Enacts settings job s s') (f : Feature) :
    Gains f s s' (job.Uses f) (job.Shows f) := by
  have hcontext (s : State) (c : CallContext) := (SameUse.withContext s c).gains f
  induction h with
  | answered h =>
    cases h with
    | remembered | absent => exact (SameUse.refl _).gains f
    | reentered => exact (SameUse.report _ _ _).gains f
  | @dispatched key site s v _ _ _ h _ ih =>
    cases h with
    | dispatched =>
      refine (((Gains.start s site).trans ih).of_right ((SameUse.finish _ key v).gains f)).level
        (f = .vertexColor ∧ site.node.kind = .vertexColor) ?_ ?_
      · simp [Job.Uses]
      · simp [Job.Shows]
  | @abandoned site s _ _ h =>
    have hasked := Gains.ask (f := f) s site.node.callee
    cases h with
    | @notLoaded _ _ e hk =>
      have hrecord := SameUse.record (s.ask site.node.callee) (e := .notLoaded e) (by simp)
      exact .outer (hasked.of_right ((hrecord.trans (.report _ _ _)).gains f)) (by simp [hk])
    | recursive hk =>
      exact .outer (hasked.of_right ((SameUse.report _ _ _).gains f)) (by simp [hk])
    | unlisted hk _ _ hi =>
      have hmade := hasked.of_right ((SameUse.instantiate hi).gains f)
      exact .outer (hmade.of_right ((SameUse.report _ _ _).gains f)) (by simp [hk])
    | unfed hk _ _ hi =>
      exact .outer (hasked.of_right ((SameUse.instantiate hi).gains f)) (by simp [hk])
    | outside hk | undeclared hk => exact .outer ((SameUse.report _ _ _).gains f) (by simp [hk])
  | nested h _ ih =>
    cases h with
    | called hk _ _ hi =>
      have hmade := (Gains.ask _ _).of_right ((SameUse.instantiate hi).gains f)
      exact .outer ((hmade.of_right (hcontext _ _)).of_left (ih.of_right (hcontext _ _)))
        (by simp [hk])
    | passed hk => exact .outer ((hcontext _ _).of_left (ih.of_right (hcontext _ _))) (by simp [hk])
  | @scripted site _ s _ _ h _ ih =>
    cases h with
    | plain _ hi =>
      rw [Site.acts, if_neg hi] at ih
      refine ih.level (∃ act ∈ site.script s.stage, act.shown? = some f)
        (site.script_uses_iff s.stage f) ?_
      simp [Job.Shows]
    | defaulted hk =>
      rw [Site.acts, if_pos hk] at ih
      exact .outer (ih.congr (by simp [Job.Uses]) (by simp [Job.Shows, Act.shown?])) (by simp [hk])
  | ended => exact ((SameUse.refl _).gains f).congr (by simp [Job.Uses]) (by simp [Job.Shows])
  | connected _ _ _ ih ihn => exact .skip (by simp) rfl (ih.of_left ihn)
  | unconnected _ _ ih => exact .skip (by simp) rfl ih
  | declared _ _ ih =>
    exact .skip (by simp) rfl (((SameUse.push _ (by simp)).gains f).of_left ih)
  | @wrote key s acts body s' _ ih =>
    exact .step ((Gains.block s body).congr (by simp) (by simp [Act.shown?, eq_comm])) ih
  | @commented key s acts text s' _ ih =>
    refine .skip (by simp) rfl (Gains.of_left ?_ ih)
    split
    · exact (SameUse.push s (by simp)).gains f
    · exact (SameUse.refl s).gains f
  | reported _ _ ih => exact ((SameUse.report _ _ _).gains f).of_left ih
  | @used key s acts feature s' _ ih =>
    exact .step ((Gains.use s feature).congr (by simp) (by simp [Act.shown?])) ih
  | @sampled key s acts texture s' _ ih =>
    exact .step ((Gains.sample s texture).congr (by simp) (by simp [Act.shown?, eq_comm])) ih
  | kept _ ih => exact .skip (by simp) rfl (((SameUse.remember _ _ _).gains f).of_left ih)
  | @claimed key s acts input s' _ ih =>
    refine .skip (by simp) rfl ?_
    -- a granted slot shows before its feature is set
    have hclaim := Gains.claim (f := f) settings s key (key.sibling input)
    generalize s.claim settings key (key.sibling input) = p at hclaim ih
    have hacts : ¬∃ act ∈ p.1.acts, act.shown? = some f := by
      cases p.1 <;> simp [Claim.acts, Act.shown?]
    refine (hclaim.trans ih).level (.use f ∈ p.1.acts) ?_ ?_
    · simp [Job.Uses, or_comm]
    · simp only [Job.Shows, List.mem_append, or_and_right, exists_or]
      rw [or_iff_right hacts, or_comm]

end

/-! ### Textures and initialisers -/

/-- The depth texture is the only one, and is registered if an initialiser names it. -/
structure State.Registered (s : State) : Prop where
  textures : s.textures = [] ∨ s.textures = [.sceneDepth]
  named : ∀ name type init, .declare name type init ∈ s.writer.statements →
    init.Depthless ∨ .sceneDepth ∈ s.textures

namespace State.Registered

variable {s s' : State}

/-- Changes elsewhere. -/
theorem of_eq (h : s.Registered) (ht : s'.textures = s.textures) (hw : s'.writer = s.writer) :
    s'.Registered := by
  refine ⟨ht ▸ h.textures, fun name type init hmem => ?_⟩
  rw [ht]
  exact h.named name type init (hw ▸ hmem)

theorem sample (h : s.Registered) (texture : SceneTexture) :
    (s.sample texture).Registered ∧ .sceneDepth ∈ (s.sample texture).textures := by
  cases texture
  unfold State.sample
  split
  next hmem => exact ⟨h, hmem⟩
  next hnew =>
    have hempty : s.textures = [] := h.textures.resolve_right fun hs => hnew (by simp [hs])
    have hmem : SceneTexture.sceneDepth ∈ s.textures ++ [.sceneDepth] := by simp
    exact ⟨⟨.inr (by simp [hempty]), fun _ _ _ _ => .inr hmem⟩, hmem⟩

theorem declare {init : Code Local} (h : s.Registered)
    (hi : init.Depthless ∨ .sceneDepth ∈ s.textures) (type : ValueType) :
    { s with writer := (s.writer.declare type init).2 }.Registered := by
  refine ⟨h.textures, fun name type' init' hmem => ?_⟩
  rcases List.mem_append.mp hmem with hmem | hmem
  · exact h.named name type' init' hmem
  · cases List.mem_singleton.mp hmem
    exact hi

theorem push (h : s.Registered) {statement : Statement}
    (hs : ∀ name type init, statement ≠ .declare name type init) :
    { s with writer := s.writer.push statement }.Registered := by
  refine ⟨h.textures, fun name type init hmem => ?_⟩
  rcases List.mem_append.mp hmem with hmem | hmem
  · exact h.named name type init hmem
  · exact absurd (List.mem_singleton.mp hmem).symm (hs name type init)

end State.Registered

namespace Job

/-- Initialisers that can name the depth texture come after it is sampled. -/
def Guarded (textures : List SceneTexture) (job : Job) : Prop :=
  ∀ key rest, job = .acts key rest →
    .declare true ∈ rest.takeWhile (· ≠ .sample .sceneDepth) → .sceneDepth ∈ textures

namespace Guarded

variable {textures : List SceneTexture} {key : BoxKey} {act : Act} {rest : List Act}

theorem box (key : BoxKey) : (Job.box key).Guarded textures := fun _ _ h => by cases h

theorem node (site : Site) : (Job.node site).Guarded textures := fun _ _ h => by cases h

theorem of_mem (h : .sceneDepth ∈ textures) (job : Job) : job.Guarded textures :=
  fun _ _ _ _ => h

theorem mono {textures' : List SceneTexture} {job : Job} (h : job.Guarded textures)
    (ht : .sceneDepth ∈ textures → .sceneDepth ∈ textures') : job.Guarded textures' :=
  fun key rest hj hmem => ht (h key rest hj hmem)

theorem of_not_mem (h : .declare true ∉ rest) : (Job.acts key rest).Guarded textures := by
  rintro _ _ ⟨⟩ hmem
  exact absurd ((List.takeWhile_prefix _).subset hmem) h

theorem script (site : Site) (stage : Stage) :
    (Job.acts site.key (site.script stage)).Guarded textures := by
  by_cases hd : site.node.kind = .depthFade
  · rintro _ _ ⟨⟩ hmem
    simp [Site.script, hd] at hmem
  · refine of_not_mem fun hmem => ?_
    unfold Site.script at hmem
    cases hk : site.node.kind with
    | depthFade => exact hd hk
    | customCode =>
      simp only [hk, List.mem_ite_nil_right] at hmem
      simp [Site.customScript] at hmem
    | interpolateVsToPs => cases stage <;> simp [hk] at hmem
    | _ => simp [hk] at hmem

theorem ofSite (site : Site) (stage : Stage) :
    (Job.acts site.key (site.acts stage)).Guarded textures := by
  unfold Site.acts
  split
  · exact of_not_mem (by simp)
  · exact script site stage

theorem tail (h : (Job.acts key (act :: rest)).Guarded textures)
    (ha : act ≠ .sample .sceneDepth) : (Job.acts key rest).Guarded textures := by
  rintro _ _ ⟨⟩ hmem
  refine h key _ rfl ?_
  rw [List.takeWhile_cons_of_pos (by simpa using ha)]
  exact List.mem_cons_of_mem act hmem

theorem claim (h : (Job.acts key rest).Guarded textures) (c : Claim) :
    (Job.acts key (c.acts ++ rest)).Guarded textures := by
  cases c with
  | granted slot =>
    rintro _ _ ⟨⟩ hmem
    refine h key _ rfl ?_
    simpa [Claim.acts] using hmem
  | full limit => exact h
  | unsupported => exact h

end Guarded

end Job

namespace State

/-- The second state has the depth texture registered wherever an initialiser names it, if the first
state has, and the texture stays registered. -/
def Registers (s s' : State) : Prop :=
  s.Registered → s'.Registered ∧ (.sceneDepth ∈ s.textures → .sceneDepth ∈ s'.textures)

namespace Registers

variable {s s' s'' : State}

theorem of_eq (ht : s'.textures = s.textures) (hw : s'.writer = s.writer) : s.Registers s' :=
  fun h => ⟨h.of_eq ht hw, fun hmem => ht ▸ hmem⟩

theorem trans (h : s.Registers s') (h' : s'.Registers s'') : s.Registers s'' := fun hs =>
  ⟨(h' (h hs).1).1, fun hmem => (h' (h hs).1).2 ((h hs).2 hmem)⟩

/-- What is left of a job goes on with the textures of one step. -/
theorem step {job : Job} (h : s.Registers s') (hj : job.Guarded s.textures)
    (h' : job.Guarded s'.textures → s'.Registers s'') : s.Registers s'' := fun hs =>
  h.trans (h' (hj.mono (h hs).2)) hs

theorem withContext (s : State) (context : CallContext) : s.Registers { s with context } :=
  .of_eq rfl rfl

theorem report (s : State) (key : BoxKey) (cause : Cause) : s.Registers (s.report key cause) :=
  .of_eq (SameUse.report s key cause).textures (SameCode.report s key cause).writer

theorem made {site : Site} {function : MaterialFunction} {graph : Nat}
    (h : (s.ask site.node.callee).instantiate site function = (graph, s')) : s.Registers s' :=
  .of_eq (SameUse.instantiate h).textures (SameCode.instantiate h).writer

end Registers

end State

open State in
/-- Enactments register the depth texture before an initialiser names it. -/
theorem Enacts.registers {settings : Settings} {job : Job} {s s' : State}
    (h : Enacts settings job s s') (hj : job.Guarded s.textures) : s.Registers s' := by
  induction h with
  | answered h =>
    cases h with
    | remembered | absent => exact .of_eq rfl rfl
    | reentered => exact .report _ _ _
  | @dispatched key site s v _ _ s' h _ ih =>
    cases h with
    | dispatched =>
      obtain ⟨memory, hf⟩ := s'.finish_eq key v
      have hfinish : s'.Registers (s'.finish key v) := .of_eq (by rw [hf]) (by rw [hf])
      have hstart : s.Registers (s.start site) := .of_eq rfl rfl
      exact (hstart.trans (ih (.node site))).trans hfinish
  | @abandoned site s _ _ h =>
    cases h with
    | @notLoaded _ _ e =>
      have hask : s.Registers ((s.ask site.node.callee).record (.notLoaded e)) := .of_eq rfl rfl
      exact hask.trans (.report _ _ _)
    | recursive =>
      have hask : s.Registers (s.ask site.node.callee) := .of_eq rfl rfl
      exact hask.trans (.report _ _ _)
    | unlisted _ _ _ hi => exact (Registers.made hi).trans (.report _ _ _)
    | unfed _ _ _ hi => exact .made hi
    | outside | undeclared => exact .report _ _ _
  | nested h _ ih =>
    cases h with
    | called _ _ _ hi =>
      have hinside := (Registers.withContext _ _).trans (ih (.box _))
      exact (Registers.made hi).trans (hinside.trans (.withContext _ _))
    | passed => exact ((Registers.withContext _ _).trans (ih (.box _))).trans (.withContext _ _)
  | @scripted site _ s _ _ _ _ ih => exact ih (.ofSite site s.stage)
  | ended => exact .of_eq rfl rfl
  | connected _ _ _ ih ihn => exact (ih (.box _)).step (hj.tail (by simp)) ihn
  | unconnected _ _ ih => exact ih (hj.tail (by simp))
  | @declared key s marked acts type init s' hi _ ih =>
    intro hs
    have hinit : init.Depthless ∨ .sceneDepth ∈ s.textures := by
      cases marked with
      | false => exact .inl (hi rfl)
      | true => exact .inr (hj key _ rfl (by simp))
    exact ih (hj.tail (by simp)) (hs.declare hinit type)
  | wrote _ ih =>
    intro hs
    exact ih (hj.tail (by simp)) (hs.push (by simp))
  | commented _ ih =>
    refine Registers.step (fun hs => ?_) (hj.tail (by simp)) ih
    split
    · exact ⟨hs.push (by simp), id⟩
    · exact ⟨hs, id⟩
  | reported _ _ ih => exact (Registers.report _ _ _).step hj ih
  | @used key s acts feature s' _ ih =>
    have hsame : s.Registers (s.use feature) := .of_eq rfl rfl
    exact hsame.step (hj.tail (by simp)) ih
  | @sampled key s acts texture s' _ ih =>
    intro hs
    obtain ⟨hs₁, hmem⟩ := hs.sample texture
    obtain ⟨hs', hkept⟩ := ih (.of_mem hmem _) hs₁
    exact ⟨hs', fun _ => hkept hmem⟩
  | @kept key s acts box value s' _ ih =>
    have hsame : s.Registers (s.remember (key.sibling box) value) := by
      obtain ⟨memory, hm⟩ := s.remember_eq (key.sibling box) value
      exact .of_eq (by rw [hm]) (by rw [hm])
    exact hsame.step (hj.tail (by simp)) ih
  | @claimed key s acts input s' _ ih =>
    have hsame : s.Registers (s.claim settings key (key.sibling input)).2 := by
      refine .of_eq ?_ (SameCode.claim s settings key _).writer
      unfold State.claim
      split
      · rfl
      · split <;> rfl
    exact hsame.step ((hj.tail (by simp)).claim _) ih

/-! ### Materials -/

/-- The features that are set are those that show, or showed earlier, and the depth texture is
registered where it is named. -/
structure State.Exact (earlier : Feature → Prop) (s : State) : Prop where
  usage : ∀ f, s.usage.contains f = true ↔ earlier f ∨ s.Shows f
  registered : s.Registered

namespace State.Exact

variable {settings : Settings} {earlier : Feature → Prop} {s s' : State} {job : Job}

theorem enacts (h : s.Exact earlier) (hj : job.Single) (he : Enacts settings job s s') :
    s'.Exact earlier ∧ (.sceneDepth ∈ s.textures → .sceneDepth ∈ s'.textures) := by
  have hguarded : job.Guarded s.textures := by
    cases hj with
    | box key => exact .box key
    | read key box => exact .of_not_mem (by simp)
  obtain ⟨hs', hkept⟩ := he.registers hguarded h.registered
  refine ⟨⟨fun f => ?_, hs'⟩, hkept⟩
  have huses : job.Uses f ↔ False := by cases hj <;> simp [Job.Uses]
  have hshows : job.Shows f ↔ False := by cases hj <;> simp [Job.Shows, Act.shown?]
  obtain ⟨both, hu, he⟩ := he.gains f
  rw [hu, he, h.usage f, huses, hshows, or_assoc]

theorem sameUse (h : s.Exact earlier) (hs : s.SameUse s') (hw : s'.writer = s.writer) :
    s'.Exact earlier := by
  refine ⟨fun f => ?_, h.registered.of_eq hs.textures hw⟩
  rw [hs.usage, h.usage f]
  exact or_congr_right ⟨hs.shows, hs.symm.shows⟩

/-- When a stage is over, its blocks of custom code showed earlier. -/
theorem nextStage (h : s.Exact fun _ => False) :
    (s.takeWriter.2.beginStage .vertex).Exact fun f => f = .customCode ∧ s.Shows f := by
  refine ⟨fun f => ?_, ⟨h.registered.textures, fun _ _ _ hmem => absurd hmem List.not_mem_nil⟩⟩
  have husage : (s.takeWriter.2.beginStage .vertex).usage = s.usage := rfl
  rw [husage, h.usage f]
  cases f <;> simp [State.takeWriter, State.beginStage, State.record]

theorem ofGraph (g : Graph) : (State.ofGraph g).Exact fun _ => False := by
  refine ⟨fun f => ?_, ⟨.inl rfl, fun _ _ _ hmem => absurd hmem List.not_mem_nil⟩⟩
  cases f <;> simp [State.ofGraph, Usage.contains]

end State.Exact

/-- The register of the depth texture comes first in a shader that has it. -/
theorem Material.textureSource_prefix {m : Material} (h : m.textures = [.sceneDepth]) :
    "Texture2D SceneDepthTexture : register(t0);\n".toList <+: m.shader.toList := by
  have hsource : textureSource [.sceneDepth] = "Texture2D SceneDepthTexture : register(t0);\n" := by
    decide
  rw [Material.shader, shaderSource, h, hsource, String.append_assoc, String.toList_append]
  exact List.prefix_append _ _

namespace Generator

variable {settings : Settings} {g : Graph} {e : Evaluator} {s : State}

/-- Where the two stages end, the features that are set are those that show, also by a block of
custom code that was written for the pixel stage. -/
theorem stages_exact (he : Engine.Follows settings g [] e) (hs : s.Idle settings g)
    (hexact : s.Exact fun _ => False) (output : Nat) :
    ∃ (s₁ s₂ : State) (pixel vertex : List StageOutput), s₁.Registered ∧
      (.sceneDepth ∈ s₁.textures → .sceneDepth ∈ s₂.textures) ∧
      (s₂.Exact fun f => f = .customCode ∧ s₁.Shows f) ∧
      stageWriters e output s = (s₁.writer, s₂.writer) ∧
      stages e output s =
        (⟨.ofWriter s₁.writer pixel, .ofWriter s₂.writer vertex, s₂.slots.length, s₂.textures,
          s₂.usage, s₂.diagnostics⟩,
          s₂.takeWriter.2.record (.finished s₂.slots.length s₂.diagnostics.length)) := by
  have hcontext (earlier : Feature → Prop) (s : State) (c : CallContext) (h : s.Exact earlier) :
      { s with context := c }.Exact earlier := h.sameUse (.withContext s c) rfl
  obtain ⟨s₁, s₂, pixel, vertex, hs₁, ⟨hs₂, hkept⟩, hw, hstages⟩ := stages_ends
    (P := State.Exact fun _ => False)
    (Q := fun s₁ s => (s.Exact fun f => f = .customCode ∧ s₁.Shows f) ∧
      (.sceneDepth ∈ s₁.textures → .sceneDepth ∈ s.textures)) he hs
    (fun job s s' hj he h => (h.enacts hj he).1) (fun s c h => hcontext _ s c h)
    (fun s₁ job s s' hj he h => ⟨(h.1.enacts hj he).1, fun hmem => (h.1.enacts hj he).2 (h.2 hmem)⟩)
    (fun s₁ s c h => ⟨hcontext _ s c h.1, h.2⟩) (hexact.sameUse (.beginStage s .pixel) rfl)
    (fun s₁ h => ⟨h.nextStage, id⟩) output
  exact ⟨s₁, s₂, pixel, vertex, hs₁.registered, hkept, hs₂, hw, hstages⟩

/-- After any requests, the features that are set are those that show. -/
theorem after_exact (g : Graph) (domain : Domain) (resolver : Resolver) (config : Config)
    (requests : List Request) :
    (((new g domain resolver).withConfig config).after requests).state.Exact fun _ => False := by
  have hafter := after_induction (fun s => s.Depthless ∧ s.Exact fun _ => False)
    (fun request s v s' _ hr h => request_keeps (fun _ _ _ hj he h => (h.enacts hj he).1) request
      hr h) (idle_new g domain resolver config)
    ⟨State.depthless_ofGraph g, .ofGraph g⟩ requests
  exact hafter.2.2.2.2

end Generator

/-- The features and textures of a material are exact. After any requests, just those features are
set that show in the state. So they are when the material is generated: interpolants with a slot,
scene depth with its texture, which is the only one and is registered in the shader if an
initialiser names it, custom code with a block in one of the stages, functions with a request for
one, and vertex color with a node for it that was evaluated. -/
theorem usage_exact (g : Graph) (domain : Domain) (resolver : Resolver) (config : Config)
    (requests : List Request) :
    let gen := ((Generator.new g domain resolver).withConfig config).after requests
    (∀ f, gen.state.usage.contains f = true ↔ gen.state.Shows f) ∧
    (gen.state.textures = [] ∨ gen.state.textures = [.sceneDepth]) ∧
    ∀ m, gen.generate.1 = .ok m →
      let last := gen.generate.2.state
      (m.interpolants = last.slots.length ∧
        (m.usage.contains .interpolants = true ↔ last.slots ≠ [])) ∧
      (m.usage.contains .sceneDepth = true ↔ m.textures = [.sceneDepth]) ∧
      (m.usage.contains .sceneDepth = false ↔ m.textures = []) ∧
      (m.usage.contains .functions = true ↔ last.loads ≠ []) ∧
      (m.usage.contains .vertexColor = true ↔ ∃ key id context active,
        .dispatched key .vertexColor id context active ∈ last.trace) ∧
      ∃ pixel vertex, gen.written = some (pixel, vertex) ∧
        m.pixel.code = pixel.source ∧ m.vertex.code = vertex.source ∧
        (m.usage.contains .customCode = true ↔
          ∃ body, .block body ∈ pixel.statements ++ vertex.statements) ∧
        ∀ name type init, .declare name type init ∈ pixel.statements ++ vertex.statements →
          SceneTexture.sceneDepth.shaderName.toList <:+: init.source.toList →
            "Texture2D SceneDepthTexture : register(t0);\n".toList <+: m.shader.toList := by
  have hexact := Generator.after_exact g domain resolver config requests
  obtain ⟨-, -, hidle⟩ := Generator.idle_after g domain resolver config requests
  dsimp only
  generalize ((Generator.new g domain resolver).withConfig config).after requests = gen at *
  refine ⟨fun f => by simpa using hexact.usage f, hexact.registered.textures, fun m hm => ?_⟩
  obtain ⟨output, ho, rfl⟩ := Generator.generate_ok hm
  obtain ⟨s₁, s₂, pixel, vertex, hs₁, hkept, hs₂, hw, hstages⟩ :=
    Generator.stages_exact gen.follows_evaluator hidle hexact output
  rw [Generator.generate_eq ho, hstages]
  have hwritten : gen.written = some (s₁.writer, s₂.writer) := by
    rw [Generator.written, ho, ← hw]
    rfl
  have husage := hs₂.usage
  have hslots : s₂.usage.contains .interpolants = true ↔ s₂.slots ≠ [] := by
    simpa using husage .interpolants
  have hdepth : s₂.usage.contains .sceneDepth = true ↔ .sceneDepth ∈ s₂.textures := by
    simpa using husage .sceneDepth
  have hloads : s₂.usage.contains .functions = true ↔ s₂.loads ≠ [] := by
    simpa using husage .functions
  dsimp only
  refine ⟨⟨rfl, hslots⟩, ?_, ?_, hloads, ?_, s₁.writer, s₂.writer, hwritten, rfl, rfl, ?_,
    fun name type init hmem hnamed => ?_⟩
  · rw [hdepth]
    rcases hs₂.registered.textures with ht | ht <;> simp [ht]
  · rw [← Bool.not_eq_true, hdepth]
    rcases hs₂.registered.textures with ht | ht <;> simp [ht]
  · rw [husage .vertexColor]
    simp [State.record, State.takeWriter]
  · rw [husage .customCode]
    simp [exists_or]
  · have hdeep : ¬init.Depthless := fun hd => Text.not_infix_of_depthless hd _ hnamed
    have hmem : .sceneDepth ∈ s₂.textures := by
      rcases List.mem_append.mp hmem with hmem | hmem
      · exact hkept ((hs₁.named name type init hmem).resolve_left hdeep)
      · exact (hs₂.registered.named name type init hmem).resolve_left hdeep
    refine Material.textureSource_prefix (hs₂.registered.textures.resolve_left fun ht => ?_)
    simp [ht] at hmem

end ShaderGraph
