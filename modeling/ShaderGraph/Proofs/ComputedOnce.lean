import ShaderGraph.Proofs.Memory

/-! Each box is computed at most once in a stage. What a node writes is written for one of its
boxes, so all its statements come from one evaluation of the node, and a call asks for its function
once for each of its output boxes. -/

namespace ShaderGraph

open CallTree

/-- The box that a task is about feeds another one. -/
def Task.Fed (table : List Instance) : Task → Prop
  | box key => Feeds table key
  | node site => Feeds table site.key ∧ Holds table site
  | recipe .. => True

/-- The box for which a recipe is carried out. -/
def Task.owner? (t : Task) : Option BoxKey := t.recipe?.map (·.1)

theorem mem_sitesOf {l : List Evaluation} {site : Site} :
    site ∈ sitesOf l ↔ ∃ y ∈ l, y.task = .node site := by
  have hsite : ∀ t : Task, t.site? = some site ↔ t = .node site := by
    intro t
    cases t <;> simp [Task.site?]
  simp [sitesOf, hsite]

section

variable {settings : Settings} {g : Graph} {table : List Instance} {x y : Evaluation} {s s' : State}
  {xs l : List Evaluation}

/-! ### The boxes that are computed -/

/-- All boxes that are evaluated feed others, if the first one does. -/
theorem Course.fed (h : Course settings x l) (hw : WellFormed table)
    (ht : x.after.instances <+: table) (hx : x.task.Fed table) : ∀ y ∈ l, y.task.Fed table := by
  induction h with
  | leaf => simpa using hx
  | @unary x y l h hy ih =>
    have hty : y.after.instances <+: table := h.during.ends.instances.trans ht
    have hbefore : y.before.instances <+: table := hy.runs.grows.instances.trans hty
    have hfed : y.task.Fed table := by
      cases h with
      | dispatched hm hs => exact ⟨State.key_of_site? hs ▸ hx, holds_of_site? hbefore hs⟩
      | called _ _ _ _ _ hp | passed _ _ _ _ hp =>
        exact (State.feeds_of_producer? (hw.of_prefix hbefore) hp).mono hbefore
      | _ => trivial
    exact List.forall_mem_cons.mpr ⟨hx, ih hty hfed⟩
  | @binary x y z l l' h hy hz ihy ihz =>
    obtain ⟨hduring, hduring'⟩ := h.during_two hy.runs hz.runs
    have hty : y.after.instances <+: table := hduring.ends.instances.trans ht
    have hbefore : y.before.instances <+: table := hy.runs.grows.instances.trans hty
    cases h with
    | connected hp =>
      have hfed := (State.feeds_of_producer? (hw.of_prefix hbefore) hp).mono hbefore
      refine List.forall_mem_cons.mpr ⟨hx, List.forall_mem_append.mpr ⟨ihy hty hfed, ?_⟩⟩
      exact ihz (hduring'.ends.instances.trans ht) trivial

theorem StageRun.fed (h : StageRun settings g table s xs s') (hl : Courses settings xs l) :
    ∀ y ∈ l, y.task.Fed table := by
  intro y hy
  obtain ⟨x, hx, l', -, hc, hmem, htop, -, hends⟩ := h.succession.exists_course hl hy
  have hnobox := h.noBoxes x hx
  have hfed : x.task.Fed table := by
    generalize x.task = task at htop hnobox
    cases htop with
    | box key => exact absurd rfl (hnobox key)
    | recipe => trivial
  exact hc.fed h.wellFormed (hends.instances.trans h.instances) hfed y hmem

/-! ### The boxes that are written for -/

/-- What is written is written by a recipe. -/
theorem Evaluation.exists_recipe (h : x.written settings ≠ []) :
    ∃ key r, x.task = .recipe key r ∧ ¬r.Silent := by
  obtain ⟨task, before, value, after⟩ := x
  cases task with
  | recipe key r =>
    refine ⟨key, r, rfl, fun hr => h ?_⟩
    cases he : r.effect? settings key before with
    | none => simp [written, Task.recipe?, he]
    | some q =>
      obtain ⟨r', s'⟩ := q
      simp [written, Task.recipe?, he, (hr.effect he).2]
  | _ => exact absurd rfl h

/-- A recipe that writes belongs to a box that is computed, unless it was there from the
beginning. -/
theorem Course.owner (h : Course settings x l) {key : BoxKey} {r : Recipe Local (Value Local)}
    (hy : y ∈ l) (ht : y.task = .recipe key r) (hr : ¬r.Silent) :
    (∃ r', x.task = .recipe key r' ∧ ¬r'.Silent) ∨
      ∃ site ∈ sitesOf l, site.key = key ∧ site.Writes := by
  refine h.ascend (P := fun y => ∃ r', y.task = .recipe key r' ∧ ¬r'.Silent) ?_ ?_ hy ⟨r, ht, hr⟩
  · rintro z hz y - hn ⟨r', hr', hsilent⟩
    cases hn with
    | plain =>
      cases hr'
      exact .inr ⟨_, mem_sitesOf.mpr ⟨_, hz, rfl⟩, rfl, _, _, hsilent⟩
    | defaulted =>
      cases hr'
      exact absurd (Recipe.silent_operandOrParam _ _ _) hsilent
    | unconnected =>
      cases hr'
      exact .inl ⟨_, rfl, fun hs => hsilent (hs.answer none)⟩
    | effect he =>
      cases hr'
      exact .inl ⟨_, rfl, fun hs => hsilent (hs.effect he).1⟩
    | _ => cases hr'
  · rintro z y w hn - (⟨r', hr', -⟩ | ⟨r', hr', hsilent⟩)
    · cases hn
      cases hr'
    · cases hn
      cases hr'
      exact .inl ⟨_, rfl, fun hs => hsilent (hs.answer _)⟩

/-- What is written in a run is written for the boxes that are computed. -/
theorem Succession.owner (h : Succession settings g s xs s') (hl : Courses settings xs l)
    (hy : y ∈ l) (hw : y.written settings ≠ []) :
    ∃ site ∈ sitesOf l, y.task.owner? = some site.key ∧ site.Writes := by
  obtain ⟨key, r, ht, hr⟩ := Evaluation.exists_recipe hw
  obtain ⟨x, -, l', hsub, hc, hmem, htop, -⟩ := h.exists_course hl hy
  rcases hc.owner hmem ht hr with ⟨r', hx, hsilent⟩ | ⟨site, hsite, rfl, hwrites⟩
  · rw [hx] at htop
    cases htop with
    | recipe hs => exact absurd hs hsilent
  · obtain ⟨z, hz, hnode⟩ := mem_sitesOf.mp hsite
    have howner : y.task.owner? = some site.key := by simp [Task.owner?, Task.recipe?, ht]
    exact ⟨site, mem_sitesOf.mpr ⟨z, hsub hz, hnode⟩, howner, hwrites⟩

end

/-! ### Stages -/

theorem nodup_of_filter_place {keys : List BoxKey}
    (h : ∀ p, (keys.filter (·.place = p)).Nodup) : keys.Nodup := by
  induction keys with
  | nil => exact List.nodup_nil
  | cons key keys ih =>
    have hown := h key.place
    rw [List.filter_cons_of_pos (by simp), List.nodup_cons] at hown
    refine List.nodup_cons.mpr ⟨fun hmem => hown.1 (List.mem_filter.mpr ⟨hmem, by simp⟩), ?_⟩
    exact ih fun p => (h p).sublist ((List.sublist_cons_self key keys).filter _)

/-- What is evaluated in a stage: the boxes computed in it are those of the events, none of them
twice. The code of the stage is what the evaluations write, each of them for a box that is
computed, and all those of a node for the same box. -/
structure EvaluatedOnce (settings : Settings) (events : List Event) (l : List Evaluation)
    (code : String) : Prop where
  dispatched : events.filterMap Event.key? = ((sitesOf l).map (·.key)).reverse
  nodup : ((sitesOf l).map (·.key)).Nodup
  calls : ((callsOf l).map (·.key)).Nodup
  code_eq : code = Writer.source ⟨l.flatMap (·.written settings)⟩
  owner : ∀ y ∈ l, y.written settings ≠ [] → ∃ site ∈ sitesOf l, y.task.owner? = some site.key
  sameBox : ∀ y ∈ l, ∀ z ∈ l, y.written settings ≠ [] → z.written settings ≠ [] →
    y.task.owner?.map BoxKey.place = z.task.owner?.map BoxKey.place → y.task.owner? = z.task.owner?

namespace StageRun

variable {settings : Settings} {g : Graph} {table : List Instance} {s s' : State}
  {xs l : List Evaluation} {site site' : Site}

theorem nodup (h : StageRun settings g table s xs s') (hl : Courses settings xs l) :
    ((sitesOf l).map (·.key)).Nodup := by
  have hcomputed := (h.succession.computed hl).computed
  rw [h.computed, List.append_nil] at hcomputed
  refine List.nodup_reverse.mp (hcomputed ▸ nodup_of_filter_place fun p => ?_)
  exact (h.passage hl p).settled.nodup

theorem mem_computedAt (h : StageRun settings g table s xs s') (hl : Courses settings xs l)
    (hs : site ∈ sitesOf l) : site.key ∈ s'.computedAt site.key.place := by
  have hcomputed := (h.succession.computed hl).computed
  refine State.mem_computedAt.mpr ⟨?_, rfl⟩
  rw [hcomputed]
  exact List.mem_append_left _ (List.mem_reverse.mpr (List.mem_map_of_mem hs))

/-- The boxes that are computed feed others. -/
theorem holds (h : StageRun settings g table s xs s') (hl : Courses settings xs l)
    (hs : site ∈ sitesOf l) : Holds table site ∧ Feeds table site.key := by
  obtain ⟨y, hy, ht⟩ := mem_sitesOf.mp hs
  have hfed := h.fed hl y hy
  rw [ht] at hfed
  exact hfed.symm

/-- All that is written for a node is written for one of its boxes. -/
theorem key_eq (h : StageRun settings g table s xs s') (hl : Courses settings xs l)
    (hs : site ∈ sitesOf l) (hs' : site' ∈ sitesOf l) (hw : site.Writes) (hw' : site'.Writes)
    (hp : site.key.place = site'.key.place) : site.key = site'.key := by
  obtain ⟨hholds, hf⟩ := h.holds hl hs
  obtain ⟨hholds', hf'⟩ := h.holds hl hs'
  have ho : site.box ∈ site.node.kind.outputBoxes := hf.mem_outputBoxes h.wellFormed hholds.node?
  have ho' : site'.box ∈ site'.node.kind.outputBoxes :=
    hf'.mem_outputBoxes h.wellFormed hholds'.node?
  obtain ⟨hgraph, hnode⟩ := Prod.mk.inj hp
  have hsame : site'.node = site.node := by
    have hn := hholds'.node?
    rw [← hgraph, ← hnode, hholds.node?] at hn
    exact (Option.some.inj hn).symm
  by_cases hk : site.node.kind = .customCode
  · -- custom code is evaluated for one output only
    refine (h.passage hl site.key.place).settled.single _ (h.mem_computedAt hl hs) _ ?_ ?_ ?_
    · exact hp ▸ h.mem_computedAt hl hs'
    · exact hholds.customOutput_iff.mpr (hw.custom hk)
    · exact hholds'.customOutput_iff.mpr (hw'.custom (hsame ▸ hk))
  · exact BoxKey.eq_of_place hp (hw.box_eq hw' (by rw [hsame]) hk ho (hsame ▸ ho'))

/-- Everything is evaluated once in a stage that starts with an empty writer. -/
theorem evaluatedOnce (h : StageRun settings g table s xs s') (hl : Courses settings xs l)
    (hempty : s.writer.statements = []) :
    ∃ events, s'.trace = events ++ s.trace ∧
      EvaluatedOnce settings events l s'.writer.source := by
  obtain ⟨events, htrace, hkeys, -⟩ := h.succession.computed hl
  have hcalls : ((callsOf l).map (·.key)).Nodup :=
    (h.nodup hl).sublist (List.filter_sublist.map _)
  refine ⟨events, htrace, hkeys, h.nodup hl, hcalls, ?_, fun y hy hw => ?_,
    fun y hy z hz hw hw' hp => ?_⟩
  · have hstatements := h.succession.statements hl
    rw [hempty, List.nil_append] at hstatements
    rw [← hstatements]
  · obtain ⟨site, hsite, howner, -⟩ := h.succession.owner hl hy hw
    exact ⟨site, hsite, howner⟩
  · obtain ⟨site, hsite, howner, hwrites⟩ := h.succession.owner hl hy hw
    obtain ⟨site', hsite', howner', hwrites'⟩ := h.succession.owner hl hz hw'
    rw [howner, howner'] at hp ⊢
    rw [h.key_eq hl hsite hsite' hwrites hwrites' (by simpa using hp)]

end StageRun

/-- Each box is computed at most once per stage of a material whose graphs were all built. The
events of the run are those of the two stages, the latest first; the functions are asked for by the
calls that are computed, in this order. -/
theorem each_box_computed_once (g : Graph) (domain : Domain) (resolver : Resolver) (config : Config)
    (m : Material) (hg : g.Built) (hf : ∀ f ∈ Engine.functions resolver, f.graph.Built)
    (hm : ((Generator.new g domain resolver).withConfig config).generate.1 = .ok m) :
    let gen := (Generator.new g domain resolver).withConfig config
    let last := gen.generate.2.state
    ∃ l₁ l₂ events₁ events₂ slots diagnostics,
      Courses gen.settings (gen.evaluations .pixel) l₁ ∧
      Courses gen.settings (gen.evaluations .vertex) l₂ ∧
      last.trace = .finished slots diagnostics :: (events₂ ++ .stageBegun .vertex ::
        (events₁ ++ [.stageBegun .pixel])) ∧
      EvaluatedOnce gen.settings events₁ l₁ m.pixel.code ∧
      EvaluatedOnce gen.settings events₂ l₂ m.vertex.code ∧
      last.loads = (callsOf l₁ ++ callsOf l₂).map (·.node.callee) := by
  intro gen last
  have hidle : gen.state.Idle gen.settings gen.material :=
    (Generator.idle_after g domain resolver config []).2.2
  obtain ⟨s₁, s₂, hpixel, hvertex, hlast, hrun₁, hrun₂⟩ :=
    Generator.generate_stageRuns hm hidle hg hf
  obtain ⟨l₁, hl₁⟩ := hrun₁.succession.courses
  obtain ⟨l₂, hl₂⟩ := hrun₂.succession.courses
  obtain ⟨events₁, htrace₁, honce₁⟩ := hrun₁.evaluatedOnce hl₁ rfl
  obtain ⟨events₂, htrace₂, honce₂⟩ := hrun₂.evaluatedOnce hl₂ rfl
  refine ⟨l₁, l₂, events₁, events₂, s₂.slots.length, s₂.diagnostics.length, hl₁, hl₂, ?_,
    hpixel ▸ honce₁, hvertex ▸ honce₂, ?_⟩
  · have htrace := congrArg State.trace hlast
    have hinner := htrace₂.trans (congrArg (fun t => events₂ ++ .stageBegun .vertex :: t) htrace₁)
    exact htrace.trans (congrArg (List.cons _) hinner)
  · have hloads := congrArg State.loads hlast
    have hfirst : s₁.loads = [] ++ (callsOf l₁).map (·.node.callee) := hrun₁.succession.loads hl₁
    have hsecond : s₂.loads = s₁.loads ++ (callsOf l₂).map (·.node.callee) :=
      hrun₂.succession.loads hl₂
    rw [List.map_append]
    exact hloads.trans (hsecond.trans (congrArg (· ++ _) hfirst))

/-- A call and custom code that are read several times, with a cycle through the custom code. -/
def sharing : Graph :=
  .build [.add .materialOutput [], .add .customCode [.text "Output0 = Input0; Output1 = Input1;"],
    .add .materialFunction [.asset doubling.id], .add .cameraVector [], .add .multiply [],
    .connect 3 0 1 0, .connect 1 9 1 1, .connect 1 8 2 0, .connect 2 16 4 0, .connect 1 9 4 1,
    .connect 4 2 0 0, .connect 2 16 0 2, .connect 4 2 0 11]

theorem doubling_built : doubling.graph.Built :=
  ⟨[.add .functionInput [], .add .add [], .add .functionOutput [], .connect 0 0 1 0,
    .connect 0 0 1 1, .connect 1 2 2 0], by decide +kernel⟩

/-- The call is read twice in the pixel stage and computed once in each stage. -/
theorem shared_call_computed_once :
    let gen := (Generator.new sharing .surface ⟨[⟨[.loaded doubling]⟩]⟩).withConfig {}
    ∃ (m : Material) (l₁ l₂ : List Evaluation) (events₁ events₂ : List Event),
      gen.generate.1 = .ok m ∧
      Courses gen.settings (gen.evaluations .pixel) l₁ ∧
      Courses gen.settings (gen.evaluations .vertex) l₂ ∧
      EvaluatedOnce gen.settings events₁ l₁ m.pixel.code ∧
      EvaluatedOnce gen.settings events₂ l₂ m.vertex.code ∧
      ((sitesOf l₁).map (·.key)).count ⟨0, 2, 16⟩ = 1 ∧
      ((sitesOf l₂).map (·.key)).count ⟨0, 2, 16⟩ = 1 := by
  obtain ⟨output, ho⟩ : ∃ output, sharing.findKind? .materialOutput = some output :=
    Option.isSome_iff_exists.mp (by decide +kernel)
  have hm : ((Generator.new sharing .surface ⟨[⟨[.loaded doubling]⟩]⟩).withConfig {}).generate.1 =
      .ok _ := congrArg Prod.fst (Generator.generate_eq ho)
  have hall := each_box_computed_once sharing .surface ⟨[⟨[.loaded doubling]⟩]⟩ {} _ ⟨_, rfl⟩
    (List.forall_mem_singleton.mpr doubling_built) hm
  have htwice : (((Generator.new sharing .surface ⟨[⟨[.loaded doubling]⟩]⟩).withConfig
      {}).generate.2.state.trace.filterMap Event.key?).count ⟨0, 2, 16⟩ = 2 := by decide +kernel
  dsimp only at hall ⊢
  generalize ((Generator.new sharing .surface ⟨[⟨[.loaded doubling]⟩]⟩).withConfig
    {}).generate.2.state = last at hall htwice
  obtain ⟨l₁, l₂, events₁, events₂, slots, diagnostics, hl₁, hl₂, htrace, h₁, h₂, -⟩ := hall
  refine ⟨_, l₁, l₂, events₁, events₂, hm, hl₁, hl₂, h₁, h₂, ?_⟩
  have hle₁ := List.nodup_iff_count_le_one.mp h₁.nodup ⟨0, 2, 16⟩
  have hle₂ := List.nodup_iff_count_le_one.mp h₂.nodup ⟨0, 2, 16⟩
  rw [htrace] at htwice
  simp only [List.filterMap_cons, List.filterMap_append, Event.key?, h₁.dispatched, h₂.dispatched,
    List.filterMap_nil, List.append_nil, List.count_append, List.count_reverse] at htwice
  omega

end ShaderGraph
