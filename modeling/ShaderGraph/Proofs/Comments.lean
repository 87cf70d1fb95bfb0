import ShaderGraph.Proofs.Course
import ShaderGraph.Proofs.Enactment

/-! Comments have no effect. An evaluation that writes comments and one that does not go through the
same states, apart from the comments among the statements; so the code of a material with comments
is the code without them and some lines more. -/

namespace ShaderGraph

/-! ### Leaving out comments -/

namespace Writer

/-- The statements that are no comments. -/
def uncommented (w : Writer) : Writer := ⟨w.statements.filter (!·.isComment)⟩

@[simp] theorem uncommented_push_comment (w : Writer) (text : String) :
    (w.push (.comment text)).uncommented = w.uncommented := by
  simp [uncommented, push, Statement.isComment]

theorem uncommented_push {w : Writer} {s : Statement} (h : s.isComment = false) :
    (w.push s).uncommented = w.uncommented.push s := by
  simp [uncommented, push, h]

@[simp] theorem nextLocal_uncommented (w : Writer) : w.uncommented.nextLocal = w.nextLocal := by
  have hkind (s : Statement) : (s.isDeclaration && !s.isComment) = s.isDeclaration := by
    cases s <;> rfl
  simp only [nextLocal, uncommented, List.countP_filter, hkind]

/-- Locals are numbered alike. -/
theorem uncommented_declare (w : Writer) (type : ValueType) (init : Code Local) :
    w.uncommented.declare type init =
      ((w.declare type init).1, (w.declare type init).2.uncommented) := by
  rw [declare, declare, nextLocal_uncommented, uncommented_push rfl]

theorem statementCount_uncommented (w : Writer) :
    w.uncommented.statementCount = w.statementCount := by
  simp [statementCount, uncommented, List.countP_filter]

end Writer

/-- The same settings, without comments. -/
def Settings.uncommented (settings : Settings) : Settings := { settings with comments := false }

namespace State

/-- The state with the comments left out, and all else as it is. -/
def uncommented (s : State) : State := { s with writer := s.writer.uncommented }

variable (s : State) (key : BoxKey)

theorem uncommented_report (cause : Cause) :
    (s.report key cause).uncommented = s.uncommented.report key cause := by
  unfold report
  dsimp only
  split
  next h => exact (if_pos h).symm
  next h => exact (if_neg h).symm

theorem uncommented_remember (value : Option (Value Local)) :
    (s.remember key value).uncommented = s.uncommented.remember key value := by
  unfold remember
  split
  next h => exact (if_pos h).symm
  next h => exact (if_neg h).symm

theorem uncommented_finish (v : Value Local) :
    (s.finish key v).uncommented = s.uncommented.finish key v := by
  unfold finish
  dsimp only
  split
  next h => exact (uncommented_remember _ key _).trans (if_pos h).symm
  next h => exact (if_neg h).symm

theorem uncommented_sample (texture : SceneTexture) :
    (s.sample texture).uncommented = s.uncommented.sample texture := by
  unfold sample
  split
  next h => exact (if_pos h).symm
  next h => exact (if_neg h).symm

theorem uncommented_claim (settings : Settings) (input : BoxKey) :
    s.uncommented.claim settings.uncommented key input =
      ((s.claim settings key input).1, (s.claim settings key input).2.uncommented) := by
  by_cases hfull : settings.slotLimit ≤ s.slots.length
  · have hclaim : s.claim settings key input = (.full settings.slotLimit, s) := if_pos hfull
    rw [hclaim]
    exact if_pos hfull
  · by_cases hnone : (!settings.domain.supportsInterpolants) = true
    · have hclaim : s.claim settings key input = (.unsupported, s) :=
        (if_neg hfull).trans (if_pos hnone)
      rw [hclaim]
      exact (if_neg hfull).trans (if_pos hnone)
    · have hclaim : s.claim settings key input = (.granted s.slots.length, _) :=
        (if_neg hfull).trans (if_neg hnone)
      rw [hclaim]
      exact (if_neg hfull).trans (if_neg hnone)

theorem uncommented_instantiate {s s' : State} {site : Site} {function : MaterialFunction}
    {graph : Nat} (h : s.instantiate site function = (graph, s')) :
    s.uncommented.instantiate site function = (graph, s'.uncommented) := by
  unfold instantiate at h ⊢
  have hof : s.uncommented.instanceOf? site.key.graph site.key.node =
    s.instanceOf? site.key.graph site.key.node := rfl
  rw [hof]
  cases ho : s.instanceOf? site.key.graph site.key.node with
  | some graph =>
    rw [ho] at h
    cases h
    rfl
  | none =>
    rw [ho] at h
    cases h
    rfl

end State

theorem Recipe.effect?_uncommented {settings : Settings} {key : BoxKey} {s s' : State}
    {r r' : Recipe Local (Value Local)} (h : r.effect? settings key s = some (r', s')) :
    r.effect? settings.uncommented key s.uncommented = some (r', s'.uncommented) := by
  cases r with
  | done | operand => cases h
  | declare type init next =>
    cases h
    have hd := s.writer.uncommented_declare type init
    rw [Prod.ext_iff] at hd
    exact congrArg some (Prod.ext (congrArg next hd.1) (congrArg ({ s with writer := · }) hd.2))
  | block body next =>
    cases h
    have hp := Writer.uncommented_push (w := s.writer) (s := .block body) rfl
    exact congrArg (fun w => some (r', { s with writer := w })) hp.symm
  | comment text next =>
    cases h
    cases hc : settings.comments with
    | false => rfl
    | true =>
      have hp := s.writer.uncommented_push_comment text
      exact congrArg (fun w => some (r', { s with writer := w })) hp.symm
  | report cause next =>
    cases h
    exact congrArg (fun s => some (r', s)) (s.uncommented_report key cause).symm
  | use feature next =>
    cases h
    rfl
  | sample texture next =>
    cases h
    exact congrArg (fun s => some (r', s)) (s.uncommented_sample texture).symm
  | remember box value next =>
    cases h
    exact congrArg (fun s => some (r', s)) (s.uncommented_remember (key.sibling box) value).symm
  | claim input next =>
    cases h
    exact congrArg (fun p => some (next p.1, p.2)) (s.uncommented_claim key settings _)

/-- The evaluation with the comments left out. -/
def Evaluation.uncommented (x : Evaluation) : Evaluation :=
  ⟨x.task, x.before.uncommented, x.value, x.after.uncommented⟩

/-- Each rule is also one for evaluations without comments. -/
theorem Evaluation.Needs.uncommented {settings : Settings} {x : Evaluation} {ys : List Evaluation}
    (h : x.Needs settings ys) :
    x.uncommented.Needs settings.uncommented (ys.map Evaluation.uncommented) := by
  unfold Evaluation.uncommented
  cases h with
  | remembered hm => exact .remembered hm
  | absent hm hs => exact .absent hm hs
  | reentered hm hs ha =>
    dsimp only
    rw [State.uncommented_report]
    exact .reentered hm hs ha
  | dispatched hm hs ha =>
    dsimp only
    rw [State.uncommented_finish]
    exact .dispatched hm hs ha
  | plain hc hi => exact .plain hc hi
  | notLoaded hk hl =>
    dsimp only
    rw [State.uncommented_report]
    exact .notLoaded hk hl
  | recursive hk hl hc =>
    dsimp only
    rw [State.uncommented_report]
    exact .recursive hk hl hc
  | unlisted hk hl hc hi ho =>
    dsimp only
    rw [State.uncommented_report]
    exact .unlisted hk hl hc (State.uncommented_instantiate hi) ho
  | unfed hk hl hc hi ho hp => exact .unfed hk hl hc (State.uncommented_instantiate hi) ho hp
  | @called site s function _ _ _ producer v s'' hk hl hc hi ho hp =>
    have hneeds : Needs settings.uncommented ⟨.node site, s.uncommented, v, _⟩
        [⟨.box producer, _, v, s''.uncommented⟩] :=
      .called hk hl hc (State.uncommented_instantiate hi) ho hp
    exact hneeds
  | outside hk hf =>
    dsimp only
    rw [State.uncommented_report]
    exact .outside hk hf
  | undeclared hk hf hg ha =>
    dsimp only
    rw [State.uncommented_report]
    exact .undeclared hk hf hg ha
  | @passed site s _ _ producer v s' hk hf hg ha hp =>
    have hneeds : Needs settings.uncommented ⟨.node site, s.uncommented, v, _⟩
        [⟨.box producer, _, v, s'.uncommented⟩] := .passed hk hf hg ha hp
    exact hneeds
  | defaulted hk hf hg ha hp => exact .defaulted hk hf hg ha hp
  | done => exact .done
  | connected hp => exact .connected hp
  | unconnected hp => exact .unconnected hp
  | effect he => exact .effect (Recipe.effect?_uncommented he)

/-- Leaving out the comments of an evaluation gives the evaluation without comments. -/
theorem Runs.uncommented {settings : Settings} {t : Task} {s s' : State} {v : Value Local}
    (h : Runs settings t s v s') :
    Runs settings.uncommented t s.uncommented v s'.uncommented := by
  induction h with
  | leaf h => exact .leaf h.uncommented
  | unary h _ ih => exact .unary h.uncommented ih
  | binary h _ _ ih ihn => exact .binary h.uncommented ih ihn

/-! ### Lines of comments -/

/-- The second text is the first with lines put in that hold a comment with the name of a node
kind. -/
inductive Text.Annotated : String → String → Prop
  | empty : Annotated "" ""
  | lines {plain text added : String} (h : Annotated plain text)
      (hl : added.toList.getLast? = some '\n') : Annotated (plain ++ added) (text ++ added)
  | comment {plain text : String} (h : Annotated plain text) (kind : NodeKind) :
      Annotated plain (text ++ s!"  // {kind.name}\n")

/-- Every comment names a node kind. -/
def Writer.Labelled (w : Writer) : Prop :=
  ∀ text, .comment text ∈ w.statements → ∃ kind : NodeKind, text = kind.name

namespace Writer.Labelled

variable {w : Writer}

theorem push {s : Statement} (h : w.Labelled) (hs : s.isComment = false) : (w.push s).Labelled := by
  intro text ht
  rcases List.mem_append.mp ht with ht | ht
  · exact h text ht
  · rw [← List.mem_singleton.mp ht] at hs
    cases hs

theorem comment (h : w.Labelled) (kind : NodeKind) : (w.push (.comment kind.name)).Labelled := by
  intro text ht
  rcases List.mem_append.mp ht with ht | ht
  · exact h text ht
  · cases List.mem_singleton.mp ht
    exact ⟨kind, rfl⟩

theorem annotated (h : w.Labelled) : Text.Annotated w.uncommented.source w.source := by
  obtain ⟨l⟩ := w
  induction l using List.reverseRecOn with
  | nil => exact .empty
  | append_singleton l s ih =>
    have hrest := ih fun text ht => h text (List.mem_append_left _ ht)
    change Text.Annotated (Writer.push ⟨l⟩ s).uncommented.source (Writer.push ⟨l⟩ s).source
    rw [source_push]
    cases hs : s.isComment with
    | false =>
      rw [uncommented_push hs, source_push]
      exact .lines hrest s.getLast?_source
    | true =>
      cases s with
      | declare | block => cases hs
      | comment text =>
        obtain ⟨kind, rfl⟩ := h text (List.mem_append_right _ List.mem_cons_self)
        rw [uncommented_push_comment]
        exact .comment hrest kind

end Writer.Labelled

/-- The comments of a script name the kind of the node. -/
theorem Site.script_comment {site : Site} {stage : Stage} {text : String}
    (h : .comment text ∈ site.script stage) : text = site.node.kind.name := by
  unfold Site.script at h
  cases hk : site.node.kind with
  | customCode =>
    simp only [hk, Site.customScript, List.mem_ite_nil_right] at h
    simpa using h.2
  | cameraDepthFade | depthFade => simpa [hk] using h
  | interpolateVsToPs => cases stage <;> simp [hk] at h
  | _ => simp [hk] at h

/-- The comments that are yet to be written name node kinds. -/
def Job.Labelled (job : Job) : Prop :=
  ∀ key acts, job = .acts key acts → ∀ text, .comment text ∈ acts →
    ∃ kind : NodeKind, text = kind.name

namespace Job.Labelled

variable {key : BoxKey} {act : Act} {acts : List Act}

theorem box (key : BoxKey) : (Job.box key).Labelled := fun _ _ h => by cases h

theorem node (site : Site) : (Job.node site).Labelled := fun _ _ h => by cases h

theorem read (key : BoxKey) (box : BoxId) : (Job.acts key [.read box]).Labelled := by
  rintro _ _ ⟨⟩ text ht
  simp at ht

theorem ofSite (site : Site) (stage : Stage) :
    (Job.acts site.key (site.acts stage)).Labelled := by
  unfold Site.acts
  split
  · exact read _ _
  · rintro _ _ ⟨⟩ text ht
    exact ⟨_, Site.script_comment ht⟩

theorem tail (h : (Job.acts key (act :: acts)).Labelled) : (Job.acts key acts).Labelled := by
  rintro _ _ ⟨⟩ text ht
  exact h key _ rfl text (List.mem_cons_of_mem act ht)

theorem claim (h : (Job.acts key (act :: acts)).Labelled) (c : Claim) :
    (Job.acts key (c.acts ++ acts)).Labelled := by
  rintro _ _ ⟨⟩ text ht
  have hacts : .comment text ∉ c.acts := by cases c <;> simp [Claim.acts]
  exact h.tail key _ rfl text ((List.mem_append.mp ht).resolve_left hacts)

end Job.Labelled

theorem Job.Single.labelled {job : Job} (h : job.Single) : job.Labelled := by
  cases h with
  | box key => exact .box key
  | read key box => exact .read key box

theorem Enacts.labelled {settings : Settings} {job : Job} {s s' : State}
    (h : Enacts settings job s s') (hj : job.Labelled) (hs : s.writer.Labelled) :
    s'.writer.Labelled := by
  induction h with
  | answered h | abandoned h => rwa [h.sameCode.writer]
  | dispatched h _ ih =>
    cases h with
    | dispatched =>
      rw [State.finish_writer]
      exact ih (.node _) hs
  | nested h _ ih =>
    cases h with
    | called _ _ _ hi =>
      refine ih (.box _) ?_
      rw [(State.SameCode.instantiate hi).writer]
      exact hs
    | passed => exact ih (.box _) hs
  | @scripted site _ s _ _ _ _ ih => exact ih (.ofSite site s.stage) hs
  | ended => exact hs
  | connected _ _ _ ih ihn => exact ihn hj.tail (ih (.box _) hs)
  | unconnected _ _ ih => exact ih hj.tail hs
  | declared _ _ ih => exact ih hj.tail (hs.push rfl)
  | wrote _ ih => exact ih hj.tail (hs.push rfl)
  | @commented key s acts text s' _ ih =>
    refine ih hj.tail ?_
    obtain ⟨kind, rfl⟩ := hj key _ rfl text List.mem_cons_self
    split
    · exact hs.comment kind
    · exact hs
  | reported _ _ ih =>
    refine ih hj ?_
    rwa [(State.SameCode.report _ _ _).writer]
  | used _ ih => exact ih hj.tail hs
  | sampled _ ih =>
    refine ih hj.tail ?_
    rwa [(State.SameCode.sample _ _).writer]
  | @kept key s acts box value s' _ ih =>
    obtain ⟨memory, hm⟩ := s.remember_eq (key.sibling box) value
    exact ih hj.tail (by rwa [hm])
  | claimed _ ih =>
    refine ih (hj.claim _) ?_
    rwa [(State.SameCode.claim _ _ _ _).writer]

/-! ### Materials -/

/-- Two states between requests, the second one without comments. -/
structure State.Uncommented (settings : Settings) (g : Graph) (s u : State) : Prop where
  idle : s.Idle settings g
  idle' : u.Idle settings.uncommented g
  eq : u = s.uncommented

namespace Generator

variable {settings : Settings} {g : Graph} {e e' : Evaluator} {s u : State}

theorem parameter_uncommented (he : Engine.Follows settings g [] e)
    (he' : Engine.Follows settings.uncommented g [] e') (h : s.Uncommented settings g u)
    (output : Nat) (p : Parameter) :
    (parameter e' output p u).1 = (parameter e output p s).1 ∧
      (parameter e output p s).2.Uncommented settings g (parameter e' output p u).2 := by
  have hrun := parameter_runs he h.idle output p
  have hrun' := parameter_runs he' h.idle' output p
  have hu := hrun.uncommented
  rw [← h.eq] at hu
  obtain ⟨hvalue, hend⟩ := hrun'.unique hu
  exact ⟨congrArg (StageOutput.mk p.target) hvalue, h.idle.runs (p.located h.idle output) hrun,
    h.idle'.runs (p.located h.idle' output) hrun', hend⟩

theorem interpolants_uncommented (he : Engine.Follows settings g [] e)
    (he' : Engine.Follows settings.uncommented g [] e') (h : s.Uncommented settings g u) :
    (interpolants e' u.slots u).1 = (interpolants e s.slots s).1 ∧
      (interpolants e s.slots s).2.Uncommented settings g (interpolants e' u.slots u).2 := by
  have hslots : List.Forall₂ Eq s.slots u.slots := by
    rw [h.eq, List.forall₂_eq_eq_eq]
    rfl
  refine interpolants_pair_of (fun slot slot' i s' u' hsame hslot hslot' _ _ h' => ?_) hslots h
  subst hsame
  obtain ⟨s₁, hrun, hend⟩ := interpolant_runs he h'.idle hslot i
  obtain ⟨u₁, hrun', hend'⟩ := interpolant_runs he' h'.idle' hslot' i
  obtain ⟨hidle, hgrows⟩ := interpolant_idle h'.idle hslot hrun
  obtain ⟨hidle', hgrows'⟩ := interpolant_idle h'.idle' hslot' hrun'
  obtain rfl := h'.eq
  obtain ⟨hvalue, rfl⟩ := hrun'.unique hrun.uncommented
  rw [hend, hend']
  exact ⟨congrArg (StageOutput.mk _) hvalue, ⟨hidle, hidle', rfl⟩, hgrows, hgrows'⟩

/-- The two materials differ in the comments alone, and leave the same state behind. -/
theorem stages_uncommented (he : Engine.Follows settings g [] e)
    (he' : Engine.Follows settings.uncommented g [] e') (h : s.Uncommented settings g u)
    (output : Nat) :
    ∃ pixel vertex pixelOutputs vertexOutputs s',
      stageWriters e output s = (pixel, vertex) ∧
      stageWriters e' output u = (pixel.uncommented, vertex.uncommented) ∧
      stages e output s =
        (⟨.ofWriter pixel pixelOutputs, .ofWriter vertex vertexOutputs, s'.slots.length,
          s'.textures, s'.usage, s'.diagnostics⟩, s') ∧
      stages e' output u =
        (⟨.ofWriter pixel.uncommented pixelOutputs, .ofWriter vertex.uncommented vertexOutputs,
          s'.slots.length, s'.textures, s'.usage, s'.diagnostics⟩, s') ∧
      s'.uncommented = s' := by
  have hparameter (p : Parameter) (s u : State) (h : s.Uncommented settings g u) :=
    parameter_uncommented he he' h output p
  have hbegin {s u : State} (h : s.Uncommented settings g u) (stage : Stage) :
      (s.beginStage stage).Uncommented settings g (u.beginStage stage) :=
    ⟨h.idle.beginStage stage, h.idle'.beginStage stage, by rw [h.eq]; rfl⟩
  have hpixel := parameters_pair_of hparameter (hbegin h .pixel) .pixel
  unfold stageWriters
  rw [stages_eq, stages_eq, pixelStage_eq, pixelStage_eq]
  generalize parameters e output .pixel (s.beginStage .pixel) = p at hpixel ⊢
  generalize parameters e' output .pixel (u.beginStage .pixel) = p' at hpixel ⊢
  obtain ⟨hvalues, hmid⟩ := hpixel
  have htaken : p.2.takeWriter.2.Uncommented settings g p'.2.takeWriter.2 :=
    ⟨hmid.idle.takeWriter, hmid.idle'.takeWriter, by rw [hmid.eq]; rfl⟩
  have hvertex := parameters_pair_of hparameter (hbegin htaken .vertex) .vertex
  dsimp only
  rw [vertexStage_eq, vertexStage_eq]
  generalize parameters e output .vertex (p.2.takeWriter.2.beginStage .vertex) = q at hvertex ⊢
  generalize parameters e' output .vertex (p'.2.takeWriter.2.beginStage .vertex) = q' at hvertex ⊢
  obtain ⟨hvalues', hend⟩ := hvertex
  have hinterpolants := interpolants_uncommented he he' hend
  dsimp only
  generalize interpolants e q.2.slots q.2 = r at hinterpolants ⊢
  generalize interpolants e' q'.2.slots q'.2 = r' at hinterpolants ⊢
  obtain ⟨hvalues'', hlast⟩ := hinterpolants
  refine ⟨_, _, _, _, r.2.takeWriter.2.record (.finished r.2.slots.length r.2.diagnostics.length),
    rfl, ?_, rfl, ?_, rfl⟩
  · rw [hmid.eq, hlast.eq]
    rfl
  · rw [hvalues, hvalues', hvalues'', hmid.eq, hlast.eq]
    rfl

/-- Every comment that is written names a node kind. -/
theorem stageWriters_labelled (he : Engine.Follows settings g [] e) (hs : s.Idle settings g)
    (hl : s.writer.Labelled) (output : Nat) :
    (stageWriters e output s).1.Labelled ∧ (stageWriters e output s).2.Labelled := by
  have hkept (job : Job) (s s' : State) (hj : job.Single) (he : Enacts settings job s s')
      (hs : s.writer.Labelled) : s'.writer.Labelled := he.labelled hj.labelled hs
  obtain ⟨s₁, s₂, -, -, hs₁, hs₂, hw, -⟩ := stages_ends (P := (·.writer.Labelled))
    (Q := fun _ s => s.writer.Labelled) he hs hkept (fun _ _ h => h) (fun _ => hkept)
    (fun _ _ _ h => h) hl (fun _ _ _ ht => absurd ht List.not_mem_nil) output
  rw [hw]
  exact ⟨hs₁, hs₂⟩

end Generator

/-- Two generators in the same state, the second one without comments. -/
structure Generator.Uncommented (gen gen' : Generator) : Prop where
  settings : gen'.settings = gen.settings.uncommented
  material : gen'.material = gen.material
  state : gen.state.Uncommented gen.settings gen.material gen'.state
  labelled : gen.state.Depthless ∧ gen.state.writer.Labelled

namespace Generator.Uncommented

variable {gen gen' : Generator}

theorem answer (h : gen.Uncommented gen') (request : Request) :
    (gen'.answer request).1 = (gen.answer request).1 ∧
      (gen.answer request).2.Uncommented (gen'.answer request).2 := by
  have hidle' : gen'.state.Idle gen'.settings gen'.material := by
    rw [h.settings, h.material]
    exact h.state.idle'
  have hrun := answer_runs h.state.idle request
  have hrun' := answer_runs hidle' request
  have hl' := hidle'.runs (request.task_located hidle') hrun'
  have htask : request.task gen'.state = request.task gen.state := by
    rw [h.state.eq]
    cases request <;> rfl
  have hu := hrun.uncommented
  rw [← h.settings, ← h.state.eq, ← htask] at hu
  obtain ⟨hvalue, hend⟩ := hrun'.unique hu
  have hconfig (gen : Generator) : (gen.answer request).2.settings = gen.settings ∧
      (gen.answer request).2.material = gen.material := by
    cases request <;> exact ⟨rfl, rfl⟩
  refine ⟨hvalue, ?_, ?_, ⟨?_, ?_, hend⟩, ?_⟩
  · rw [(hconfig gen).1, (hconfig gen').1, h.settings]
  · rw [(hconfig gen).2, (hconfig gen').2, h.material]
  · rw [(hconfig gen).1, (hconfig gen).2]
    exact h.state.idle.runs (request.task_located h.state.idle) hrun
  · rw [(hconfig gen).1, (hconfig gen).2, ← h.settings, ← h.material]
    exact hl'
  · exact request_keeps (fun _ _ _ hj he hs => he.labelled hj.labelled hs) request hrun h.labelled

theorem after (h : gen.Uncommented gen') (requests : List Request) :
    (gen.after requests).Uncommented (gen'.after requests) := by
  induction requests generalizing gen gen' with
  | nil => exact h
  | cons request requests ih => exact ih (h.answer request).2

theorem new (g : Graph) (domain : Domain) (resolver : Resolver) (limit : Nat) :
    ((Generator.new g domain resolver).withConfig ⟨limit, true⟩).Uncommented
      ((Generator.new g domain resolver).withConfig ⟨limit, false⟩) where
  settings := rfl
  material := rfl
  state :=
    ⟨idle_new g domain resolver ⟨limit, true⟩, idle_new g domain resolver ⟨limit, false⟩, rfl⟩
  labelled := ⟨State.depthless_ofGraph g, fun _ ht => absurd ht List.not_mem_nil⟩

/-- Without a material output, there is no material either way. -/
theorem generate_error (h : gen.Uncommented gen') {error : GenerateError}
    (he : gen.generate.1 = .error error) :
    gen'.generate.1 = .error error ∧ gen'.generate.2.state = gen.generate.2.state.uncommented := by
  cases ho : gen.material.findKind? .materialOutput with
  | none =>
    rw [generate_none ho] at he ⊢
    rw [generate_none (h.material ▸ ho)]
    exact ⟨he, h.state.eq⟩
  | some output =>
    rw [generate_eq ho] at he
    cases he

theorem generate_ok (h : gen.Uncommented gen') {m : Material} (hm : gen.generate.1 = .ok m) :
    ∃ pixel vertex, gen.written = some (pixel, vertex) ∧
      gen'.written = some (pixel.uncommented, vertex.uncommented) ∧
      pixel.Labelled ∧ vertex.Labelled ∧
      m.pixel.code = pixel.source ∧ m.vertex.code = vertex.source ∧
      gen'.generate.1 = .ok { m with
        pixel.code := pixel.uncommented.source, vertex.code := vertex.uncommented.source } ∧
      gen'.generate.2.state = gen.generate.2.state.uncommented := by
  obtain ⟨output, ho, rfl⟩ := Generator.generate_ok hm
  have ho' := ho
  rw [← h.material] at ho'
  have he' := gen'.follows_evaluator
  rw [h.settings, h.material] at he'
  have hlabelled := stageWriters_labelled gen.follows_evaluator h.state.idle h.labelled.2 output
  obtain ⟨pixel, vertex, pixelOutputs, vertexOutputs, s', hw, hw', hstages, hstages', hs'⟩ :=
    stages_uncommented gen.follows_evaluator he' h.state output
  rw [generate_eq ho, generate_eq ho', written, written, ho, ho', hstages, hstages']
  rw [hw] at hlabelled
  exact ⟨pixel, vertex, congrArg some hw, congrArg some hw', hlabelled.1, hlabelled.2, rfl, rfl,
    rfl, hs'.symm⟩

end Generator.Uncommented

/-- Comments change nothing but the code, and add whole lines to that: after any requests, the
states with and without comments are the same but for the comments, as are the answers to all
further requests, and so are the materials, the writers of whose stages differ in the comments
alone. -/
theorem comments_inert (g : Graph) (domain : Domain) (resolver : Resolver) (limit : Nat)
    (requests : List Request) :
    let gen := fun comments =>
      ((Generator.new g domain resolver).withConfig ⟨limit, comments⟩).after requests
    (gen false).state = (gen true).state.uncommented ∧
    (gen false).state.writer.statementCount = (gen true).state.writer.statementCount ∧
    (∀ request, ((gen false).answer request).1 = ((gen true).answer request).1) ∧
    (gen false).generate.2.state = (gen true).generate.2.state.uncommented ∧
    (∀ error, (gen true).generate.1 = .error error → (gen false).generate.1 = .error error) ∧
    ∀ m, (gen true).generate.1 = .ok m → ∃ pixel vertex,
      (gen true).written = some (pixel, vertex) ∧
      (gen false).written = some (pixel.uncommented, vertex.uncommented) ∧
      m.pixel.code = pixel.source ∧ m.vertex.code = vertex.source ∧
      (gen false).generate.1 = .ok { m with
        pixel.code := pixel.uncommented.source, vertex.code := vertex.uncommented.source } ∧
      Text.Annotated pixel.uncommented.source pixel.source ∧
      Text.Annotated vertex.uncommented.source vertex.source := by
  have h := (Generator.Uncommented.new g domain resolver limit).after requests
  dsimp only
  generalize ((Generator.new g domain resolver).withConfig ⟨limit, true⟩).after requests = gen at *
  generalize ((Generator.new g domain resolver).withConfig ⟨limit, false⟩).after requests = gen'
    at *
  refine ⟨h.state.eq, ?_, fun request => (h.answer request).1, ?_,
    fun error he => (h.generate_error he).1, fun m hm => ?_⟩
  · rw [h.state.eq]
    exact Writer.statementCount_uncommented _
  · cases hm : gen.generate.1 with
    | error error => exact (h.generate_error hm).2
    | ok m =>
      obtain ⟨_, _, -, -, -, -, -, -, -, hs⟩ := h.generate_ok hm
      exact hs
  · obtain ⟨pixel, vertex, hw, hw', hlp, hlv, hpixel, hvertex, hm', -⟩ := h.generate_ok hm
    exact ⟨pixel, vertex, hw, hw', hpixel, hvertex, hm', hlp.annotated, hlv.annotated⟩

end ShaderGraph
