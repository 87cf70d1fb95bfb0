import ShaderGraph.Proofs.Script
import ShaderGraph.Proofs.Stages

/-! Evaluations as the enactment of scripts. Boxes and nodes follow the rules of an evaluation, with
a script in the place of each recipe and a rule for each kind of step in a script, so that what
scripts are known to do can be used in an induction on the rules. Every evaluation is an
enactment. -/

namespace ShaderGraph

/-- What can be enacted: the evaluation of an output box, of a node for one of its boxes, or what is
left of a script. -/
inductive Job where
  | box (key : BoxKey)
  | node (site : Site)
  | acts (key : BoxKey) (acts : List Act)

/-- The script that is enacted for a box. A function input without an argument reads its default. -/
def Site.acts (site : Site) (stage : Stage) : List Act :=
  if site.node.kind = .functionInput then [.read 1] else site.script stage

/-- `Enacts settings job s s'`: the job starts in the state `s` and ends in `s'`. -/
inductive Enacts (settings : Settings) : Job → State → State → Prop
  | answered {key s v s'} (h : Evaluation.Needs settings ⟨.box key, s, v, s'⟩ []) :
      Enacts settings (.box key) s s'
  | dispatched {key site s v s' s₁ s₂}
      (h : Evaluation.Needs settings ⟨.box key, s, v, s'⟩ [⟨.node site, s₁, v, s₂⟩])
      (hn : Enacts settings (.node site) s₁ s₂) : Enacts settings (.box key) s s'
  | abandoned {site s v s'} (h : Evaluation.Needs settings ⟨.node site, s, v, s'⟩ []) :
      Enacts settings (.node site) s s'
  | nested {site key s v s' s₁ s₂}
      (h : Evaluation.Needs settings ⟨.node site, s, v, s'⟩ [⟨.box key, s₁, v, s₂⟩])
      (hn : Enacts settings (.box key) s₁ s₂) : Enacts settings (.node site) s s'
  | scripted {site r s v s'}
      (h : Evaluation.Needs settings ⟨.node site, s, v, s'⟩ [⟨.recipe site.key r, s, v, s'⟩])
      (hn : Enacts settings (.acts site.key (site.acts s.stage)) s s') :
      Enacts settings (.node site) s s'
  -- scripts
  | ended {key s} : Enacts settings (.acts key []) s s
  | connected {key s box acts producer s₁ s₂} (hp : s.producer? (key.sibling box) = some producer)
      (h : Enacts settings (.box producer) s s₁) (hn : Enacts settings (.acts key acts) s₁ s₂) :
      Enacts settings (.acts key (.read box :: acts)) s s₂
  | unconnected {key s box acts s'} (hp : s.producer? (key.sibling box) = none)
      (hn : Enacts settings (.acts key acts) s s') :
      Enacts settings (.acts key (.read box :: acts)) s s'
  | declared {key s marked acts type init s'} (hi : marked = false → init.Depthless)
      (hn : Enacts settings (.acts key acts)
        { s with writer := (s.writer.declare type init).2 } s') :
      Enacts settings (.acts key (.declare marked :: acts)) s s'
  | wrote {key s acts body s'}
      (hn : Enacts settings (.acts key acts) { s with writer := s.writer.push (.block body) } s') :
      Enacts settings (.acts key (.block :: acts)) s s'
  | commented {key s acts text s'}
      (hn : Enacts settings (.acts key acts)
        (if settings.comments then { s with writer := s.writer.push (.comment text) } else s) s') :
      Enacts settings (.acts key (.comment text :: acts)) s s'
  | reported {key s acts cause s'} (hc : ¬cause.OfCall)
      (hn : Enacts settings (.acts key acts) (s.report key cause) s') :
      Enacts settings (.acts key acts) s s'
  | used {key s acts feature s'} (hn : Enacts settings (.acts key acts) (s.use feature) s') :
      Enacts settings (.acts key (.use feature :: acts)) s s'
  | sampled {key s acts texture s'} (hn : Enacts settings (.acts key acts) (s.sample texture) s') :
      Enacts settings (.acts key (.sample texture :: acts)) s s'
  | kept {key s acts box value s'}
      (hn : Enacts settings (.acts key acts) (s.remember (key.sibling box) value) s') :
      Enacts settings (.acts key (.remember :: acts)) s s'
  | claimed {key s acts input s'}
      (hn : Enacts settings
        (.acts key ((s.claim settings key (key.sibling input)).1.acts ++ acts))
        (s.claim settings key (key.sibling input)).2 s') :
      Enacts settings (.acts key (.claim :: acts)) s s'

/-- The job that a task comes to. -/
inductive Task.IsJob : Task → Job → Prop
  | box (key : BoxKey) : IsJob (.box key) (.box key)
  | node (site : Site) : IsJob (.node site) (.node site)
  | recipe {key r acts} (h : r.Plays Value.Depthless acts) : IsJob (.recipe key r) (.acts key acts)

namespace State

/-- Only values whose text does not name the depth texture are remembered. -/
def Depthless (s : State) : Prop := ∀ p ∈ s.memory, p.2.Depthless

namespace Depthless

variable {s s' : State}

/-- Changes elsewhere. -/
theorem of_eq (h : s.Depthless) (hm : s'.memory = s.memory) : s'.Depthless := by
  unfold Depthless
  rwa [hm]

theorem report (h : s.Depthless) (key : BoxKey) (cause : Cause) :
    (s.report key cause).Depthless :=
  h.of_eq (SameCode.report s key cause).memory

end Depthless

end State

/-- The recipe by which a node is evaluated follows the script. -/
theorem Evaluation.Needs.plays {settings : Settings} {site : Site} {s s' : State} {v : Value Local}
    {r : Recipe Local (Value Local)}
    (h : Needs settings ⟨.node site, s, v, s'⟩ [⟨.recipe site.key r, s, v, s'⟩]) :
    r.Plays Value.Depthless (site.acts s.stage) := by
  unfold Site.acts
  cases h with
  | plain _ hi =>
    rw [if_neg hi]
    exact site.recipe_plays settings.domain s.stage
  | defaulted hk =>
    rw [if_pos hk]
    exact .operandOrParam _ _ _

/-- Every evaluation is an enactment. It has a value whose text does not name the depth texture, and
remembers only such values. -/
theorem Runs.enacts {settings : Settings} {t : Task} {s s' : State} {v : Value Local} {job : Job}
    (h : Runs settings t s v s') (ht : t.IsJob job) (hs : s.Depthless) :
    Enacts settings job s s' ∧ v.Depthless ∧ s'.Depthless := by
  induction h generalizing job with
  | leaf h =>
    have hs' := hs.of_eq h.sameCode.memory
    cases ht with
    | box key =>
      refine ⟨.answered h, ?_, hs'⟩
      cases h with
      | remembered hm => exact hs (_, _) (State.mem_of_remembered? hm)
      | absent | reentered => exact .zero _
    | node site =>
      refine ⟨.abandoned h, ?_, hs'⟩
      cases h <;> exact .zero _
    | recipe hp =>
      cases h with
      | done =>
        cases hp with
        | done hv => exact ⟨.ended, hv, hs⟩
  | @unary _ s _ _ _ h _ ih =>
    -- the rule is also one for jobs, unless it is a step of a recipe
    have hneeds := h
    cases h with
    | dispatched =>
      cases ht
      obtain ⟨hnode, hv, hs'⟩ := ih (.node _) (hs.of_eq rfl)
      exact ⟨.dispatched hneeds hnode, hv, State.forall_mem_finish hs' hv⟩
    | called _ _ _ hi =>
      cases ht
      obtain ⟨hbox, hv, hs'⟩ := ih (.box _) (hs.of_eq (State.SameCode.instantiate hi).memory)
      exact ⟨.nested hneeds hbox, hv, hs'.of_eq rfl⟩
    | passed =>
      cases ht
      obtain ⟨hbox, hv, hs'⟩ := ih (.box _) (hs.of_eq rfl)
      exact ⟨.nested hneeds hbox, hv, hs'.of_eq rfl⟩
    | plain | defaulted =>
      cases ht
      obtain ⟨hacts, hv, hs'⟩ := ih (.recipe hneeds.plays) hs
      exact ⟨.scripted hneeds hacts, hv, hs'⟩
    | unconnected hprod =>
      cases ht with
      | recipe hp =>
        cases hp with
        | operand hn =>
          obtain ⟨hacts, hv, hs'⟩ := ih (.recipe (hn none (by simp))) hs
          exact ⟨.unconnected hprod hacts, hv, hs'⟩
    | @effect key _ _ _ _ _ _ he =>
      cases ht with
      | recipe hp =>
        cases hp with
        | done => cases he
        | operand => cases he
        | declare hi hn =>
          cases he
          obtain ⟨hacts, hv, hs'⟩ := ih (.recipe (hn _ (.ref _ _))) (hs.of_eq rfl)
          exact ⟨.declared hi hacts, hv, hs'⟩
        | block hn =>
          cases he
          obtain ⟨hacts, hv, hs'⟩ := ih (.recipe hn) (hs.of_eq rfl)
          exact ⟨.wrote hacts, hv, hs'⟩
        | comment hn =>
          cases he
          obtain ⟨hacts, hv, hs'⟩ := ih (.recipe hn) (by split <;> exact hs)
          exact ⟨.commented hacts, hv, hs'⟩
        | report hc hn =>
          cases he
          obtain ⟨hacts, hv, hs'⟩ := ih (.recipe hn) (hs.report _ _)
          exact ⟨.reported hc hacts, hv, hs'⟩
        | use hn =>
          cases he
          obtain ⟨hacts, hv, hs'⟩ := ih (.recipe hn) (hs.of_eq rfl)
          exact ⟨.used hacts, hv, hs'⟩
        | sample hn =>
          cases he
          obtain ⟨hacts, hv, hs'⟩ := ih (.recipe hn) (hs.of_eq (State.SameCode.sample s _).memory)
          exact ⟨.sampled hacts, hv, hs'⟩
        | remember hv hn =>
          cases he
          obtain ⟨hacts, hv, hs'⟩ := ih (.recipe hn) (State.forall_mem_remember hs hv)
          exact ⟨.kept hacts, hv, hs'⟩
        | claim hn =>
          cases he
          obtain ⟨hacts, hv, hs'⟩ := ih (.recipe (hn _))
            (hs.of_eq (State.SameCode.claim s settings key _).memory)
          exact ⟨.claimed hacts, hv, hs'⟩
  | binary h _ _ ih ihn =>
    cases h with
    | connected hprod =>
      cases ht with
      | recipe hp =>
        cases hp with
        | operand hn =>
          obtain ⟨hbox, hv, hs₁⟩ := ih (.box _) hs
          obtain ⟨hacts, hv', hs₂⟩ := ihn (.recipe (hn _ (by simpa using hv))) hs₁
          exact ⟨.connected hprod hbox hacts, hv', hs₂⟩

/-! ### Materials -/

/-- What a material is asked for: an output box, or what feeds a single input box. -/
inductive Job.Single : Job → Prop
  | box (key : BoxKey) : Single (.box key)
  | read (key : BoxKey) (box : BoxId) : Single (.acts key [.read box])

theorem Parameter.isJob (p : Parameter) (key : BoxKey) :
    (Task.recipe key p.recipe).IsJob (.acts key [.read p.box]) :=
  .recipe (.feed _ _ (.literal _))

theorem Slot.isJob (slot : Slot) (key : BoxKey) :
    (Task.recipe key slot.recipe).IsJob (.acts key [.read slot.input.box]) :=
  .recipe (.feed _ _ (.zero _))

theorem Request.isJob (request : Request) (s : State) :
    ∃ job : Job, job.Single ∧ (request.task s).IsJob job := by
  cases request with
  | output node box => exact ⟨_, .box _, .box _⟩
  | input node box => exact ⟨_, .read _ box, .recipe (.operandOr box (.zero _))⟩

theorem State.depthless_ofGraph (g : Graph) : (State.ofGraph g).Depthless := by
  simp [Depthless, ofGraph]

theorem State.depthless_beginStage (s : State) (stage : Stage) :
    (s.beginStage stage).Depthless := by
  simp [Depthless, beginStage]

namespace Generator

variable {settings : Settings} {g : Graph} {P : State → Prop}

/-- What the jobs of requests keep is kept by every request. -/
theorem request_keeps
    (h : ∀ job s s', job.Single → Enacts settings job s s' → P s → P s') (request : Request)
    {s s' : State} {v : Value Local} (hr : Runs settings (request.task s) s v s')
    (hs : s.Depthless ∧ P s) : s'.Depthless ∧ P s' := by
  obtain ⟨job, hsingle, hjob⟩ := request.isJob s
  obtain ⟨henacts, -, hs'⟩ := hr.enacts hjob hs.1
  exact ⟨hs', h job s s' hsingle henacts hs.2⟩

/-- What such jobs keep in every context is kept by the parameters and interpolants of a
material. -/
theorem keeps_of_enacts
    (h : ∀ job s s', job.Single → Enacts settings job s s' → P s → P s')
    (hcontext : ∀ s context, P s → P { s with context }) (output : Nat) :
    Keeps settings g output (fun s => s.Depthless ∧ P s) (fun _ _ _ => True)
      (fun _ _ => True) where
  stable _ _ _ _ _ := id
  stable' _ _ _ _ := id
  onParameter p s v s' _ hs hr := by
    obtain ⟨henacts, -, hs'⟩ := hr.enacts (p.isJob _) hs.1
    exact ⟨⟨hs', h _ s s' (.read _ _) henacts hs.2⟩, trivial⟩
  onInterpolant slot s v s' _ _ hs hr := by
    obtain ⟨henacts, -, hs'⟩ := hr.enacts (slot.isJob _) (hs.1.of_eq rfl)
    have hkept := h _ _ s' (.read _ _) henacts (hcontext s slot.context hs.2)
    exact ⟨⟨hs'.of_eq rfl, hcontext s' s.context hkept⟩, trivial⟩

/-- What such jobs keep in every context holds at the ends of the two stages, if it holds at their
beginnings. What is kept in the vertex stage can depend on the end of the pixel stage. -/
theorem stages_ends {e : Evaluator} {s : State} {Q : State → State → Prop}
    (he : Engine.Follows settings g [] e) (hs : s.Idle settings g)
    (hP : ∀ job s s', job.Single → Enacts settings job s s' → P s → P s')
    (hP' : ∀ s context, P s → P { s with context })
    (hQ : ∀ s₁ job s s', job.Single → Enacts settings job s s' → Q s₁ s → Q s₁ s')
    (hQ' : ∀ s₁ s context, Q s₁ s → Q s₁ { s with context }) (hpixel : P (s.beginStage .pixel))
    (hvertex : ∀ s₁, P s₁ → Q s₁ (s₁.takeWriter.2.beginStage .vertex)) (output : Nat) :
    ∃ s₁ s₂ pixel vertex, P s₁ ∧ Q s₁ s₂ ∧
      stageWriters e output s = (s₁.writer, s₂.writer) ∧
      stages e output s =
        (⟨.ofWriter s₁.writer pixel, .ofWriter s₂.writer vertex, s₂.slots.length, s₂.textures,
          s₂.usage, s₂.diagnostics⟩,
          s₂.takeWriter.2.record (.finished s₂.slots.length s₂.diagnostics.length)) := by
  obtain ⟨s₁, s₂, pixel, vertex, interpolants, hw, heq, -, hs₁, -, -, -, hs₂, -⟩ :=
    (keeps_of_enacts hP hP' output).stages (fun s₁ => keeps_of_enacts (hQ s₁) (hQ' s₁) output) he hs
      ⟨s.depthless_beginStage .pixel, hpixel⟩
      fun s₁ _ hs₁ => ⟨State.depthless_beginStage _ .vertex, hvertex s₁ hs₁.2⟩
  exact ⟨s₁, s₂, pixel, vertex ++ interpolants, hs₁.2, hs₂.2, hw, heq⟩

end Generator

end ShaderGraph
