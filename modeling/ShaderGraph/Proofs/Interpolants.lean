import ShaderGraph.Proofs.Slots

/-! The interpolants of a material are consistent between its stages. The vertex stage writes the
slots that the pixel stage has claimed, one after the other, each from the input of the node that
reads it. -/

namespace ShaderGraph

open CallTree

/-! ### Types of outputs -/

theorem Literal.type_cast? {l l' : Literal} {target : ValueType} (h : l.cast? target = some l') :
    l'.type = target := by
  unfold cast? at h
  dsimp only at h
  split at h <;> cases h <;> rfl

namespace Value

variable {ρ : Type}

theorem type_zero (type : ValueType) : (zero type : Value ρ).type = type := by
  cases type with
  | float dim => cases dim <;> rfl
  | _ => rfl

theorem type_cast {v w : Value ρ} {target : ValueType} (h : v.cast target = .ok w) :
    w.type = target := by
  unfold cast at h
  split at h
  next htype =>
    cases h
    exact htype
  next =>
    split at h
    next =>
      split at h
      next hl =>
        cases h
        obtain ⟨l, -, hcast⟩ := Option.bind_eq_some_iff.mp hl
        exact Literal.type_cast? hcast
      next =>
        cases h
        rfl
    next => cases h

end Value

section

variable {settings : Settings} {key : BoxKey} {s s' : State} {v : Value Local}
  {l : List Evaluation}

theorem Course.type_castTo {type : ValueType} {w : Value Local}
    (h : Course settings ⟨.recipe key (.castTo type w), s, v, s'⟩ l) : v.type = type := by
  cases hc : w.cast type with
  | ok u =>
    have hrecipe : Recipe.castTo type w = .done u := by
      unfold Recipe.castTo
      rw [hc]
    rw [hrecipe] at h
    rw [h.of_done.1]
    exact Value.type_cast hc
  | error e =>
    have hrecipe : Recipe.castTo type w = .report (.ofTypeMismatch e) (.done (.zero type)) := by
      unfold Recipe.castTo
      rw [hc]
    rw [hrecipe] at h
    obtain ⟨l', -, h'⟩ := h.of_effect rfl
    rw [h'.of_done.1]
    exact Value.type_zero type

/-- A value that is fed to a parameter or to an interpolant has the type asked for. -/
theorem Runs.type_feed {box : BoxId} {type : ValueType} {default : Value Local}
    (h : Runs settings (.recipe key (.feed box type default)) s v s') : v.type = type := by
  obtain ⟨l, hl⟩ := h.course
  rcases hl.of_operand with ⟨l', -, hcast⟩ | ⟨_, _, _, _, l', -, -, hcast⟩
  · exact hcast.type_castTo
  · exact hcast.type_castTo

end

/-! ### The outputs of the vertex stage -/

/-- The results of a sequence of evaluations, each with its evaluation. -/
theorem Evaluation.forall₂_sequence {ι α : Type} {f : ι → Eval α} {F : ι → State → Evaluation}
    {I : State → Prop} (xs : List ι)
    (h : ∀ x ∈ xs, ∀ s, I s → s.resume (F x s) = (f x s).2 ∧ I (f x s).2) (s : State)
    (hs : I s) :
    List.Forall₂ (fun x a => x ∈ xs ∧ ∃ s', I s' ∧ a = (f x s').1 ∧
      F x s' ∈ sequence (xs.map F) s) xs (xs.mapM f s).1 := by
  induction xs generalizing s with
  | nil => exact .nil
  | cons x xs ih =>
    obtain ⟨hresume, hnext⟩ := h x List.mem_cons_self s hs
    have hrest := ih (fun y hy => h y (List.mem_cons_of_mem x hy)) _ hnext
    rw [Eval.mapM_cons_apply]
    refine .cons ⟨List.mem_cons_self, s, hs, rfl, List.mem_cons_self⟩ (hrest.imp ?_)
    rintro y a ⟨hy, s', hI, ha, hmem⟩
    refine ⟨List.mem_cons_of_mem x hy, s', hI, ha, List.mem_cons_of_mem _ ?_⟩
    rw [hresume]
    exact hmem

namespace Generator

open Evaluation

variable {settings : Settings} {g : Graph} {e : Evaluator} {output : Nat} {s : State}
  {gen : Generator} {m : Material}

/-- The vertex stage goes on where the pixel stage ends. -/
theorem generate_vertex (hm : gen.generate.1 = .ok m) :
    ∃ output, gen.material.findKind? .materialOutput = some output ∧
      m.vertex = .ofWriter
        (interpolants gen.evaluator
          (parameters gen.evaluator output .vertex (gen.begun output .vertex)).2.slots
          (parameters gen.evaluator output .vertex (gen.begun output .vertex)).2).2.writer
        ((parameters gen.evaluator output .vertex (gen.begun output .vertex)).1 ++
          (interpolants gen.evaluator
            (parameters gen.evaluator output .vertex (gen.begun output .vertex)).2.slots
            (parameters gen.evaluator output .vertex (gen.begun output .vertex)).2).1) ∧
      m.interpolants = gen.generate.2.state.slots.length ∧
      gen.generate.2.state.slots =
        (interpolants gen.evaluator
          (parameters gen.evaluator output .vertex (gen.begun output .vertex)).2.slots
          (parameters gen.evaluator output .vertex (gen.begun output .vertex)).2).2.slots := by
  obtain ⟨output, ho, rfl⟩ := generate_ok hm
  refine ⟨output, ho, ?_⟩
  rw [begun, if_pos rfl, generate_eq ho, stages_eq]
  dsimp only
  rw [vertexStage_eq]
  dsimp only
  generalize parameters gen.evaluator output .vertex _ = q
  generalize interpolants gen.evaluator q.2.slots q.2 = r
  exact ⟨rfl, rfl, rfl⟩

theorem idle_begun (h : gen.state.Idle gen.settings gen.material) (output : Nat) :
    (gen.begun output .vertex).Idle gen.settings gen.material := by
  have hpixel := parameters_succession gen.follows_evaluator (h.beginStage .pixel) output .pixel
  rw [begun, if_pos rfl, pixelStage_eq]
  exact hpixel.idle.takeWriter.beginStage .vertex

theorem map_eq_of_forall₂ {ι α β : Type} {R : ι → α → Prop} {F : ι → β} {G : α → β}
    (hR : ∀ x a, R x a → G a = F x) {xs : List ι} {as : List α} (h : List.Forall₂ R xs as) :
    as.map G = xs.map F := by
  induction h with
  | nil => rfl
  | cons hx _ ih => rw [List.map_cons, List.map_cons, ih, hR _ _ hx]

theorem parameters_outputs (he : Engine.Follows settings g [] e) (hs : s.Idle settings g)
    (output : Nat) (stage : Stage) :
    (parameters e output stage s).1.map (fun o => (o.target, o.value.type)) =
      (Parameter.inStage stage).map fun p => (p.target, p.type) := by
  have hall := forall₂_sequence (f := parameter e output) (F := parameterStep e output)
    (I := (·.Idle settings g)) (Parameter.inStage stage) (fun p _ s hs => ?_) s hs
  · refine map_eq_of_forall₂ (fun p o h => ?_) hall
    obtain ⟨-, s', hidle, rfl, -⟩ := h
    have htype : (parameter e output p s').1.value.type = p.type :=
      (parameter_runs he hidle output p).type_feed
    rw [htype]
    rfl
  · obtain ⟨hfrom, hresume⟩ := parameterStep_from he hs output p
    exact ⟨hresume, hresume ▸ hfrom.idle_resume⟩

/-- The interpolants are those of the slots, in their order. -/
theorem forall₂_interpolants (he : Engine.Follows settings g [] e) (hs : s.Idle settings g) :
    List.Forall₂ (fun (p : Slot × Nat) o =>
        o.target = s!"CustomVSToPS[{p.2}]" ∧ o.value.type = .float4 ∧
          ∃ y ∈ sequence (s.slots.zipIdx.map (interpolantStep e)) s,
            y.task = .recipe p.1.node p.1.recipe ∧ y.before.context = p.1.context ∧
              y.value = o.value)
      s.slots.zipIdx (interpolants e s.slots s).1 := by
  have hall := forall₂_sequence (f := fun p : Slot × Nat => interpolant e p.1 p.2)
    (F := interpolantStep e)
    (I := fun s' => s'.Idle settings g ∧ s.slots <+: s'.slots) s.slots.zipIdx
    (fun p hp s' hs' => (interpolantStep_next he hs' hp).2) s ⟨hs, List.prefix_refl _⟩
  refine hall.imp ?_
  rintro ⟨slot, i⟩ o ⟨hmem, s', ⟨hidle, hp⟩, rfl, hstep⟩
  have hslot : slot ∈ s'.slots := hp.subset (List.fst_mem_of_mem_zipIdx hmem)
  obtain ⟨s'', hr, -⟩ := interpolant_runs he hidle hslot i
  exact ⟨rfl, hr.type_feed, _, hstep, rfl, rfl, rfl⟩

end Generator

/-! ### Consistency -/

/-- The slots of a material agree with what its pixel stage reads, in the evaluations `l₁`, and with
what its vertex stage writes, in the evaluations `l₂`. -/
structure SlotsConsistent (gen : Generator) (m : Material) (l₁ l₂ : List Evaluation)
    (last : State) : Prop where
  added : ∀ y ∈ l₁, y.before.slots <+: y.after.slots ∧ y.after.slots <+: last.slots
  fixed : ∀ y ∈ l₂, y.before.slots = last.slots ∧ y.after.slots = last.slots
  /-- Different slots belong to different nodes. -/
  nodup : (last.slots.map (·.node.place)).Nodup
  /-- A slot belongs to a node that interpolates, and was claimed when that was evaluated. -/
  owner : ∀ n slot, last.slots[n]? = some slot →
    Interpolates last.instances slot.node ∧ slot.input = slot.node.sibling 0 ∧
      ∃ y ∈ l₁, y.task = .box slot.node ∧ y.value = slotRead n
  reads : ∀ y ∈ l₁, ∀ key node, y.task = .box key →
    node? last.instances key.graph key.node = some node → node.kind = .interpolateVsToPs →
    ∀ n, y.value = slotRead n ↔ ∃ slot, last.slots[n]? = some slot ∧ slot.node.place = key.place
  refused : ∀ y ∈ l₁, ∀ key node, y.task = .box key →
    node? last.instances key.graph key.node = some node → node.kind = .interpolateVsToPs →
    (∀ slot ∈ last.slots, slot.node.place ≠ key.place) → y.value = .zero .float4 ∧
      ∃ cause, gen.settings.Refuses last.slots cause ∧ last.diagnose key cause ∈ last.diagnostics
  count : m.interpolants = last.slots.length
  outputs : m.vertex.outputs.map (fun o => (o.target, o.value.type)) =
    [Parameter.positionOffset, .tessellationMultiplier, .worldDisplacement].map
        (fun p => (p.target, p.type)) ++
      (List.range m.interpolants).map fun i => (s!"CustomVSToPS[{i}]", .float4)
  /-- A slot is written from the input of its node, in the context in which it was claimed. -/
  written : ∀ i slot, last.slots[i]? = some slot → ∃ y ∈ gen.evaluations .vertex,
    y.task = .recipe slot.node slot.recipe ∧ y.before.context = slot.context ∧
      m.vertex.outputs[3 + i]? = some ⟨s!"CustomVSToPS[{i}]", y.value⟩

section

variable {settings : Settings} {g : Graph} {table : List Instance} {s s' : State}
  {xs l : List Evaluation}

/-- The node of a slot was evaluated. -/
theorem StageRun.exists_read (h : StageRun settings g table s xs s') (hl : Courses settings xs l)
    (hstage : s.stage = .pixel) (hagree : s'.SlotsAgree settings table) {n : Nat} {slot : Slot}
    (hn : s'.slots[n]? = some slot) : ∃ y ∈ l, y.task = .box slot.node ∧ y.value = slotRead n := by
  obtain ⟨hi, -, hc⟩ := hagree.claimed slot (List.mem_of_getElem? hn)
  obtain ⟨node, hnode, hk⟩ := hi.node
  obtain ⟨y, hy, ht⟩ := h.box_of_computed hl hc
  obtain ⟨-, hm⟩ := h.interpolates hl hstage hnode hk hy ht
  exact ⟨y, hy, ht, Option.some.inj (hm.symm.trans (hagree.granted n slot hn))⟩

end

/-- The outputs of the vertex stage are those of its parameters and of the slots. -/
theorem Generator.vertex_outputs {gen : Generator} {m : Material} (hm : gen.generate.1 = .ok m)
    (h : gen.state.Idle gen.settings gen.material) :
    m.vertex.outputs.map (fun o => (o.target, o.value.type)) =
        (Parameter.inStage .vertex).map (fun p => (p.target, p.type)) ++
          (List.range m.interpolants).map (fun i => (s!"CustomVSToPS[{i}]", .float4)) ∧
      ∀ i slot, gen.generate.2.state.slots[i]? = some slot → ∃ y ∈ gen.evaluations .vertex,
        y.task = .recipe slot.node slot.recipe ∧ y.before.context = slot.context ∧
          m.vertex.outputs[(Parameter.inStage .vertex).length + i]? =
            some ⟨s!"CustomVSToPS[{i}]", y.value⟩ := by
  obtain ⟨output, ho, hvertex, hcount, hlast⟩ := generate_vertex hm
  have he := gen.follows_evaluator
  have hmid := parameters_succession he (idle_begun h output) output .vertex
  have hparameters := parameters_outputs he (idle_begun h output) output .vertex
  have hevaluations : gen.evaluations .vertex =
      stageEvaluations gen.evaluator output .vertex (gen.begun output .vertex) := by
    rw [evaluations, ho]
    rfl
  have hstage : (gen.begun output .vertex).stage = .vertex := by
    rw [begun, if_pos rfl]
    rfl
  rw [hevaluations, stageEvaluations, if_pos rfl]
  generalize parameters gen.evaluator output .vertex (gen.begun output .vertex) = q at *
  have houtputs : m.vertex.outputs = q.1 ++ (interpolants gen.evaluator q.2.slots q.2).1 :=
    congrArg StageSource.outputs hvertex
  obtain ⟨l, hl⟩ := hmid.courses
  have hinter := interpolants_succession he hmid.idle
  obtain ⟨l', hl'⟩ := hinter.courses
  have hmidstage := (hmid.stepwise (State.stepwise_stage _) hl).1.trans hstage
  -- the interpolants claim no slots
  have hslots : gen.generate.2.state.slots = q.2.slots :=
    hlast.trans (hinter.slots_of_vertex hl' hmidstage).1
  have hall := forall₂_interpolants he hmid.idle
  constructor
  · have hmap := map_eq_of_forall₂ (G := fun o : StageOutput => (o.target, o.value.type))
      (F := fun p : Slot × Nat => (s!"CustomVSToPS[{p.2}]", ValueType.float4))
      (fun p o h => by rw [h.1, h.2.1]) hall
    have hrange : q.2.slots.zipIdx.map (fun p => (s!"CustomVSToPS[{p.2}]", ValueType.float4)) =
        (List.range q.2.slots.length).map fun i => (s!"CustomVSToPS[{i}]", .float4) := by
      rw [List.range_eq_range', ← List.zipIdx_map_snd 0 q.2.slots, List.map_map]
      rfl
    rw [houtputs, List.map_append, hparameters, hmap, hrange, hcount, hslots]
  · intro i slot hi
    rw [hslots] at hi
    have hrel := optionRel_getElem? hall i
    rw [List.getElem?_zipIdx, hi, Nat.zero_add] at hrel
    generalize ho' : (interpolants gen.evaluator q.2.slots q.2).1[i]? = o at hrel
    cases hrel with
    | @some _ o hrel =>
      obtain ⟨htarget, -, y, hy, htask, hcontext, hvalue⟩ := hrel
      refine ⟨y, List.mem_append_right _ hy, htask, hcontext, ?_⟩
      have hlength : (Parameter.inStage .vertex).length = q.1.length := by
        simpa using (congrArg List.length hparameters).symm
      rw [houtputs, hlength, List.getElem?_append_right (by omega), Nat.add_sub_cancel_left, ho',
        hvalue, ← htarget]

/-- The interpolants of a material whose graphs were all built are consistent, and there are no more
of them than allowed. -/
theorem interpolants_consistent (g : Graph) (domain : Domain) (resolver : Resolver)
    (config : Config) (m : Material) (hg : g.Built)
    (hf : ∀ f ∈ Engine.functions resolver, f.graph.Built)
    (hm : ((Generator.new g domain resolver).withConfig config).generate.1 = .ok m) :
    let gen := (Generator.new g domain resolver).withConfig config
    let last := gen.generate.2.state
    last.slots.length ≤ min config.maxInterpolants 16 ∧
      (domain = .decal ∨ domain = .postProcess → last.slots = []) ∧
      ∃ l₁ l₂, Courses gen.settings (gen.evaluations .pixel) l₁ ∧
        Courses gen.settings (gen.evaluations .vertex) l₂ ∧
        SlotsConsistent gen m l₁ l₂ last := by
  intro gen last
  have hidle : gen.state.Idle gen.settings gen.material :=
    (Generator.idle_after g domain resolver config []).2.2
  obtain ⟨houtputs, hwritten⟩ := Generator.vertex_outputs hm hidle
  obtain ⟨_, -, -, hcount, -⟩ := Generator.generate_vertex hm
  obtain ⟨s₁, s₂, -, -, hlast, hrun₁, hrun₂⟩ := Generator.generate_stageRuns hm hidle hg hf
  obtain ⟨l₁, hl₁⟩ := hrun₁.succession.courses
  obtain ⟨l₂, hl₂⟩ := hrun₂.succession.courses
  obtain ⟨hadds, hadded⟩ := hrun₁.succession.stepwise (State.stepwise_addsSlots _) hl₁
  obtain ⟨hend, hfixed⟩ := hrun₂.succession.slots_of_vertex hl₂ rfl
  have hagree := hrun₁.slotsAgree hl₁ rfl rfl
  have hslots : last.slots = s₁.slots := (congrArg State.slots hlast).trans hend
  have hsame : last.diagnostics = s₂.diagnostics := (congrArg State.diagnostics hlast).trans rfl
  have hdiagnostics : s₁.diagnostics <+: last.diagnostics := by
    rw [hsame]
    exact hrun₂.succession.keeps.diagnostics
  rw [hslots]
  refine ⟨hadds.bounded (Nat.zero_le _), fun hdomain => hadds.unsupported ?_, l₁, l₂, hl₁, hl₂, ?_⟩
  · rcases hdomain with rfl | rfl <;> rfl
  constructor
  case added =>
    intro y hy
    rw [hslots]
    exact ⟨(hadded y hy).2.1.slots, (hadded y hy).2.2.slots⟩
  case fixed =>
    rw [hslots]
    exact hfixed
  case nodup =>
    rw [hslots]
    exact hagree.nodup
  case owner =>
    intro n slot hn
    rw [hslots] at hn
    obtain ⟨hi, hin, -⟩ := hagree.claimed slot (List.mem_of_getElem? hn)
    exact ⟨hi, hin, hrun₁.exists_read hl₁ rfl hagree hn⟩
  case reads =>
    intro y hy key node ht hn hk n
    obtain ⟨hi, hread⟩ := hrun₁.interpolates hl₁ rfl hn hk hy ht
    rw [hslots]
    exact hagree.read_iff hi hread n
  case refused =>
    intro y hy key node ht hn hk hno
    obtain ⟨hi, hread⟩ := hrun₁.interpolates hl₁ rfl hn hk hy ht
    rw [hslots] at hno ⊢
    obtain ⟨hv, cause, hr, hd⟩ := hagree.refused key y.value hi hread
      fun slot hslot he => hno slot hslot (congrArg BoxKey.place he)
    exact ⟨hv, cause, hr, hdiagnostics.subset hd⟩
  case count => exact hcount
  case outputs => exact houtputs
  case written => exact hwritten

/-- Two nodes that interpolate the vector to the camera, the second one read by two parameters. -/
def interpolating : Graph :=
  .build [.add .materialOutput [], .add .interpolateVsToPs [], .add .interpolateVsToPs [],
    .add .cameraVector [], .connect 3 0 1 0, .connect 3 0 2 0, .connect 2 1 0 0, .connect 1 1 0 2,
    .connect 2 1 0 10]

/-- With room for one slot, the first node that is evaluated gets it. -/
theorem single_slot_consistent :
    let gen := (Generator.new interpolating .surface ⟨[]⟩).withConfig { maxInterpolants := 1 }
    ∃ (m : Material) (l₁ l₂ : List Evaluation), gen.generate.1 = .ok m ∧
      SlotsConsistent gen m l₁ l₂ gen.generate.2.state ∧ m.interpolants = 1 ∧
      gen.generate.2.state.slots.map (·.node) = [⟨0, 2, 1⟩] := by
  obtain ⟨output, ho⟩ : ∃ output, interpolating.findKind? .materialOutput = some output :=
    Option.isSome_iff_exists.mp (by decide +kernel)
  have hm : ((Generator.new interpolating .surface ⟨[]⟩).withConfig
      { maxInterpolants := 1 }).generate.1 = .ok _ := congrArg Prod.fst (Generator.generate_eq ho)
  have hall := interpolants_consistent interpolating .surface ⟨[]⟩ { maxInterpolants := 1 } _
    ⟨_, rfl⟩ (by simp [Engine.functions]) hm
  have hslots : ((Generator.new interpolating .surface ⟨[]⟩).withConfig
      { maxInterpolants := 1 }).generate.2.state.slots.map (·.node) = [⟨0, 2, 1⟩] := by
    decide +kernel
  dsimp only at hall ⊢
  generalize ((Generator.new interpolating .surface ⟨[]⟩).withConfig
    { maxInterpolants := 1 }).generate.2.state = last at hall hslots ⊢
  obtain ⟨-, -, l₁, l₂, -, -, hconsistent⟩ := hall
  refine ⟨_, l₁, l₂, hm, hconsistent, ?_, hslots⟩
  rw [hconsistent.count]
  simpa using congrArg List.length hslots

end ShaderGraph
