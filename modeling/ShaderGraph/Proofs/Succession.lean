import ShaderGraph.Proofs.Course
import ShaderGraph.Proofs.Effects

/-! What a generator evaluates one after the other: the boxes it is asked for, then the parameters
of the two stages and the interpolants. Their courses together hold everything that is evaluated
during a run, and account for all that is written, computed and asked for. -/

namespace ShaderGraph

/-- The courses of a number of evaluations, one after the other. -/
inductive Courses (settings : Settings) : List Evaluation → List Evaluation → Prop
  | nil : Courses settings [] []
  | cons {x xs l l'} (hx : Course settings x l) (hxs : Courses settings xs l') :
      Courses settings (x :: xs) (l ++ l')

/-- What is evaluated between requests: a box, or a recipe that writes nothing itself. -/
inductive Task.IsTop : Task → Prop
  | box (key : BoxKey) : IsTop (.box key)
  | recipe {key r} (h : r.Silent) : IsTop (.recipe key r)

theorem Task.IsTop.site? {t : Task} (h : t.IsTop) : t.site? = none := by
  cases h <;> rfl

/-- The state in which a generator goes on after an evaluation. -/
def State.resume (s : State) (x : Evaluation) : State := { x.after with context := s.context }

/-- The evaluation starts in a state between requests, in a context of its own. -/
structure Evaluation.From (settings : Settings) (g : Graph) (s : State) (x : Evaluation) :
    Prop where
  idle : s.Idle settings g
  before : ∃ c, x.before = { s with context := c }
  sound : x.before.Sound settings g
  located : x.task.Located x.before
  top : x.task.IsTop
  runs : Runs settings x.task x.before x.value x.after

/-- Evaluations one after the other, from a state between requests to another. -/
inductive Succession (settings : Settings) (g : Graph) : State → List Evaluation → State → Prop
  | nil {s} (h : s.Idle settings g) : Succession settings g s [] s
  | cons {s x xs s'} (hx : x.From settings g s)
      (hxs : Succession settings g (s.resume x) xs s') : Succession settings g s (x :: xs) s'

section

variable {settings : Settings} {g : Graph} {s s' s'' : State} {x : Evaluation}
  {xs ys l l' : List Evaluation}

theorem Evaluation.From.idle_resume (h : x.From settings g s) : (s.resume x).Idle settings g := by
  obtain ⟨c, hc⟩ := h.before
  have hg := h.runs.grows
  have hinstances : s.instances <+: x.after.instances := by
    have hp := hg.instances
    rwa [hc] at hp
  have hactive : x.after.active = s.active := by
    have ha := hg.active
    rwa [hc] at ha
  refine ⟨?_, hactive.trans h.idle.active, h.idle.context⟩
  exact (h.runs.sound h.sound h.located).withContext (h.idle.sound.context.mono hinstances)

theorem Evaluation.From.extends (h : x.From settings g s) : s.Extends x.before := by
  obtain ⟨c, hc⟩ := h.before
  rw [hc]
  exact .of_eq rfl rfl rfl

namespace Courses

theorem append (h : Courses settings xs l) (h' : Courses settings ys l') :
    Courses settings (xs ++ ys) (l ++ l') := by
  induction h with
  | nil => exact h'
  | cons hx _ ih =>
    rw [List.append_assoc]
    exact .cons hx ih

theorem subset (h : Courses settings xs l) : xs ⊆ l := by
  induction h with
  | nil => exact List.nil_subset _
  | cons hx _ ih =>
    exact List.cons_subset.mpr ⟨List.mem_append_left _ hx.self_mem,
      List.subset_append_of_subset_right _ ih⟩

theorem of_append (h : Courses settings (xs ++ ys) l) :
    ∃ l₁ l₂, l = l₁ ++ l₂ ∧ Courses settings xs l₁ ∧ Courses settings ys l₂ := by
  induction xs generalizing l with
  | nil => exact ⟨[], l, rfl, .nil, h⟩
  | cons x xs ih =>
    cases h with
    | cons hx hxs =>
      obtain ⟨l₁, l₂, rfl, h₁, h₂⟩ := ih hxs
      exact ⟨_, l₂, (List.append_assoc _ _ _).symm, .cons hx h₁, h₂⟩

end Courses

namespace Succession

theorem append (h : Succession settings g s xs s') (h' : Succession settings g s' ys s'') :
    Succession settings g s (xs ++ ys) s'' := by
  induction h with
  | nil => exact h'
  | cons hx _ ih => exact .cons hx (ih h')

theorem idle (h : Succession settings g s xs s') : s'.Idle settings g := by
  induction h with
  | nil h => exact h
  | cons _ _ ih => exact ih

theorem courses (h : Succession settings g s xs s') : ∃ l, Courses settings xs l := by
  induction h with
  | nil => exact ⟨[], .nil⟩
  | cons hx _ ih =>
    obtain ⟨l, hl⟩ := hx.runs.course
    obtain ⟨l', hl'⟩ := ih
    exact ⟨l ++ l', .cons hl hl'⟩

theorem keeps (h : Succession settings g s xs s') : s.Extends s' := by
  induction h with
  | nil => exact .of_eq rfl rfl rfl
  | @cons s x _ _ hx _ ih =>
    have hresume : x.after.Extends (s.resume x) := .of_eq rfl rfl rfl
    exact (hx.extends.trans hx.runs.grows.extends).trans (hresume.trans ih)

/-- All evaluations of a run take place in sound states between its first and its last one. -/
theorem forall_mem (h : Succession settings g s xs s') (hl : Courses settings xs l) :
    ∀ y ∈ l, y.before.Sound settings g ∧ y.task.Located y.before ∧ s.Extends y.before ∧
      y.after.Extends s' := by
  induction h generalizing l with
  | nil =>
    cases hl
    simp
  | @cons s x _ _ hx hxs ih =>
    cases hl with
    | cons hc hcs =>
      have hresume : x.after.Extends (s.resume x) := .of_eq rfl rfl rfl
      intro y hy
      rcases List.mem_append.mp hy with hy | hy
      · have hduring := hc.during y hy
        obtain ⟨hsound, hlocated⟩ := hc.sound hx.sound hx.located y hy
        exact ⟨hsound, hlocated, hx.extends.trans hduring.starts,
          (hduring.ends.trans hresume).trans hxs.keeps⟩
      · obtain ⟨hsound, hlocated, hstarts, hends⟩ := ih hcs y hy
        refine ⟨hsound, hlocated, ?_, hends⟩
        exact ((hx.extends.trans hx.runs.grows.extends).trans hresume).trans hstarts

/-- Every evaluation of a run belongs to the course of one that the generator starts. -/
theorem exists_course (h : Succession settings g s xs s') (hl : Courses settings xs l)
    {y : Evaluation} (hy : y ∈ l) :
    ∃ x ∈ xs, ∃ l', l' ⊆ l ∧ Course settings x l' ∧ y ∈ l' ∧ x.task.IsTop ∧
      x.before.active = [] ∧ x.after.Extends s' := by
  induction h generalizing l with
  | nil =>
    cases hl
    cases hy
  | @cons s x _ _ hx hxs ih =>
    cases hl with
    | cons hc hcs =>
      rcases List.mem_append.mp hy with hy | hy
      · have hresume : x.after.Extends (s.resume x) := .of_eq rfl rfl rfl
        obtain ⟨c, hbefore⟩ := hx.before
        exact ⟨x, List.mem_cons_self, _, List.subset_append_left _ _, hc, hy, hx.top,
          by rw [hbefore, hx.idle.active], hresume.trans hxs.keeps⟩
      · obtain ⟨x', hmem, l', hsub, hrest⟩ := ih hcs hy
        exact ⟨x', List.mem_cons_of_mem _ hmem, l', List.subset_append_of_subset_right _ hsub,
          hrest⟩

/-! What a run writes, asks for and computes -/

theorem statements (h : Succession settings g s xs s') (hl : Courses settings xs l) :
    s'.writer.statements = s.writer.statements ++ l.flatMap (·.written settings) := by
  induction h generalizing l with
  | nil =>
    cases hl
    exact (List.append_nil _).symm
  | cons hx _ ih =>
    cases hl with
    | cons hc hcs =>
      obtain ⟨c, hbefore⟩ := hx.before
      have hstatements := hc.statements
      rw [hbefore] at hstatements
      rw [ih hcs, List.flatMap_append, ← List.append_assoc]
      exact congrArg (· ++ _) hstatements

theorem loads (h : Succession settings g s xs s') (hl : Courses settings xs l) :
    s'.loads = s.loads ++ (callsOf l).map (·.node.callee) := by
  induction h generalizing l with
  | nil =>
    cases hl
    exact (List.append_nil _).symm
  | cons hx _ ih =>
    cases hl with
    | cons hc hcs =>
      obtain ⟨c, hbefore⟩ := hx.before
      have hloads := hc.loads
      rw [hbefore] at hloads
      rw [ih hcs, callsOf_append, List.map_append, ← List.append_assoc]
      exact congrArg (· ++ _) hloads

theorem computed (h : Succession settings g s xs s') (hl : Courses settings xs l) :
    s.Computes ((sitesOf l).map (·.key)) s' := by
  induction h generalizing l with
  | nil =>
    cases hl
    exact .of_eq rfl
  | @cons s x _ _ hx _ ih =>
    cases hl with
    | cons hc hcs =>
      obtain ⟨c, hbefore⟩ := hx.before
      have hopen : s.Computes [] x.before := .of_eq (by rw [hbefore])
      have hclose : x.after.Computes [] (s.resume x) := .of_eq rfl
      have hall := (hopen.trans hc.computed).trans (hclose.trans (ih hcs))
      -- the evaluation itself is none of a node
      rw [sitesOf_append, hc.eq_cons, sitesOf_cons, hx.top.site?]
      simpa using hall

/-- Whenever a node is dispatched during a run, its evaluation is part of it. -/
theorem dispatched (h : Succession settings g s xs s') (hl : Courses settings xs l) {e : Event}
    (he : e ∈ s'.trace) (hu : e.underway ≠ []) :
    e ∈ s.trace ∨ ∃ y ∈ l, ∃ site, y.task = .node site ∧
      e = .dispatched site.key site.node.kind site.node.id y.before.context
        y.before.active.tail := by
  induction h generalizing l with
  | nil => exact .inl he
  | cons hx _ ih =>
    cases hl with
    | cons hc hcs =>
      rcases ih hcs he with hmid | ⟨y, hy, hrest⟩
      · rcases hc.dispatched hmid hu with hbefore | ⟨y, hy, hrest⟩
        · obtain ⟨c, hc⟩ := hx.before
          rw [hc] at hbefore
          exact .inl hbefore
        · exact .inr ⟨y, List.mem_append_left _ hy, hrest⟩
      · exact .inr ⟨y, List.mem_append_right _ hy, hrest⟩

end Succession

end

/-! ### The evaluations of a generator -/

/-- Evaluations that each start where a generator goes on after the one before. -/
def Evaluation.sequence : List (State → Evaluation) → State → List Evaluation
  | [], _ => []
  | step :: steps, s => step s :: sequence steps (s.resume (step s))

theorem Evaluation.mem_sequence {steps : List (State → Evaluation)} {s : State} {x : Evaluation}
    (h : x ∈ sequence steps s) : ∃ step ∈ steps, ∃ s', x = step s' := by
  induction steps generalizing s with
  | nil => cases h
  | cons step steps ih =>
    rcases List.mem_cons.mp h with rfl | h
    · exact ⟨step, List.mem_cons_self, s, rfl⟩
    · obtain ⟨step', hmem, hx⟩ := ih h
      exact ⟨step', List.mem_cons_of_mem _ hmem, hx⟩

/-- A sequence of evaluations is that of the results it is made for. -/
theorem Succession.mapM {settings : Settings} {g : Graph} {ι α : Type} {f : ι → Eval α}
    {step : ι → State → Evaluation} {I : State → Prop} (xs : List ι)
    (hI : ∀ s, I s → s.Idle settings g)
    (h : ∀ x ∈ xs, ∀ s, I s →
      (step x s).From settings g s ∧ s.resume (step x s) = (f x s).2 ∧ I (f x s).2)
    (s : State) (hs : I s) :
    Succession settings g s (Evaluation.sequence (xs.map step) s) (xs.mapM f s).2 := by
  induction xs generalizing s with
  | nil => exact .nil (hI s hs)
  | cons x xs ih =>
    obtain ⟨hfrom, hresume, hnext⟩ := h x List.mem_cons_self s hs
    rw [Eval.mapM_cons_apply]
    refine .cons hfrom ?_
    rw [hresume]
    exact ih (fun y hy => h y (List.mem_cons_of_mem x hy)) _ hnext

namespace Generator

open Evaluation

/-- The evaluation that answers a request, in a state of the generator. -/
def requestStep (gen : Generator) (request : Request) (s : State) : Evaluation :=
  ⟨request.task s, s, ({ gen with state := s }.answer request).1,
    ({ gen with state := s }.answer request).2.state⟩

def parameterStep (e : Evaluator) (output : Nat) (p : Parameter) (s : State) : Evaluation :=
  ⟨.recipe ⟨0, output, p.box⟩ p.recipe, s, (parameter e output p s).1.value,
    (parameter e output p s).2⟩

/-- An interpolant is evaluated in the context of its slot. -/
def interpolantStep (e : Evaluator) (slot : Slot × Nat) (s : State) : Evaluation :=
  ⟨.recipe slot.1.node slot.1.recipe, { s with context := slot.1.context },
    (interpolant e slot.1 slot.2 s).1.value,
    { (interpolant e slot.1 slot.2 s).2 with context := slot.1.context }⟩

/-- The evaluations that answer requests. -/
def requested (gen : Generator) (requests : List Request) : List Evaluation :=
  sequence (requests.map gen.requestStep) gen.state

/-- The evaluations of a stage that begins in a state. -/
def stageEvaluations (e : Evaluator) (output : Nat) (stage : Stage) (s : State) :
    List Evaluation :=
  let mid := (parameters e output stage s).2
  sequence ((Parameter.inStage stage).map (parameterStep e output)) s ++
    if stage = .vertex then sequence (mid.slots.zipIdx.map (interpolantStep e)) mid else []

/-- The state in which a stage begins, given the output node. -/
def begun (gen : Generator) (output : Nat) (stage : Stage) : State :=
  if stage = .vertex then (pixelStage gen.evaluator output gen.state).2.beginStage .vertex
  else gen.state.beginStage .pixel

/-- The evaluations of a stage when the material is generated, none without an output node. -/
def evaluations (gen : Generator) (stage : Stage) : List Evaluation :=
  (gen.material.findKind? .materialOutput).elim [] fun output =>
    stageEvaluations gen.evaluator output stage (gen.begun output stage)

section

variable {settings : Settings} {g : Graph} {e : Evaluator} {output : Nat} {s : State}
  {gen : Generator}

theorem resume_of_context {x : Evaluation} (h : x.after.context = s.context) :
    s.resume x = x.after := by
  rw [State.resume, ← h]

theorem parameterStep_from (he : Engine.Follows settings g [] e) (hs : s.Idle settings g)
    (output : Nat) (p : Parameter) :
    (parameterStep e output p s).From settings g s ∧
      s.resume (parameterStep e output p s) = (parameter e output p s).2 := by
  have hr := parameter_runs he hs output p
  refine ⟨⟨hs, ⟨s.context, rfl⟩, hs.sound, p.located hs output, ?_, hr⟩,
    resume_of_context hr.grows.context⟩
  exact .recipe (Recipe.silent_feed _ _ _)

theorem interpolantStep_from (he : Engine.Follows settings g [] e) (hs : s.Idle settings g)
    {slot : Slot} (hslot : slot ∈ s.slots) (i : Nat) :
    (interpolantStep e (slot, i) s).From settings g s ∧
      s.resume (interpolantStep e (slot, i) s) = (interpolant e slot i s).2 := by
  obtain ⟨hvalid, hcur, -⟩ := hs.sound.slots slot hslot
  obtain ⟨s', hr, hend⟩ := interpolant_runs he hs hslot i
  have hcontext : s'.context = slot.context := hr.grows.context
  have hafter : { (interpolant e slot i s).2 with context := slot.context } = s' := by
    rw [hend, ← hcontext]
  refine ⟨⟨hs, ⟨slot.context, rfl⟩, hs.sound.withContext hvalid,
    ⟨hcur, slot.recipe_callFree⟩, .recipe (Recipe.silent_feed _ _ _), ?_⟩, ?_⟩
  · unfold interpolantStep
    rw [hafter]
    exact hr
  · unfold State.resume interpolantStep
    dsimp only
    rw [hend]

theorem requestStep_from {state : State} (h : state.Idle gen.settings gen.material)
    (request : Request) :
    (gen.requestStep request state).From gen.settings gen.material state ∧
      state.resume (gen.requestStep request state) =
        ({ gen with state }.answer request).2.state := by
  have hr := @answer_runs { gen with state } h request
  refine ⟨⟨h, ⟨state.context, rfl⟩, h.sound, request.task_located h, ?_, hr⟩,
    resume_of_context hr.grows.context⟩
  cases request with
  | output node box => exact .box _
  | input node box => exact .recipe (Recipe.silent_operandOr _ _)

/-- A sequence of requests. -/
theorem requested_succession (h : gen.state.Idle gen.settings gen.material)
    (requests : List Request) :
    Succession gen.settings gen.material gen.state (gen.requested requests)
      (gen.after requests).state := by
  induction requests generalizing gen with
  | nil => exact .nil h
  | cons request requests ih =>
    obtain ⟨hfrom, hresume⟩ := requestStep_from h request
    have hgen : (gen.answer request).2 =
        { gen with state := (gen.answer request).2.state } := by cases request <;> rfl
    refine .cons hfrom ?_
    rw [hresume]
    have hidle := hfrom.idle_resume
    rw [hresume] at hidle
    have hrest := @ih { gen with state := (gen.answer request).2.state } hidle
    rw [after, List.foldl_cons, hgen]
    exact hrest

theorem parameters_succession (he : Engine.Follows settings g [] e) (hs : s.Idle settings g)
    (output : Nat) (stage : Stage) :
    Succession settings g s
      (sequence ((Parameter.inStage stage).map (parameterStep e output)) s)
      (parameters e output stage s).2 := by
  refine Succession.mapM (I := (·.Idle settings g)) _ (fun _ h => h) (fun p _ s hs => ?_) s hs
  obtain ⟨hfrom, hresume⟩ := parameterStep_from he hs output p
  exact ⟨hfrom, hresume, hresume ▸ hfrom.idle_resume⟩

/-- An interpolant leaves the slots where they are. -/
theorem interpolantStep_next (he : Engine.Follows settings g [] e) {s' : State}
    (hs : s'.Idle settings g ∧ s.slots <+: s'.slots) {slot : Slot} {i : Nat}
    (hmem : (slot, i) ∈ s.slots.zipIdx) :
    (interpolantStep e (slot, i) s').From settings g s' ∧
      s'.resume (interpolantStep e (slot, i) s') = (interpolant e slot i s').2 ∧
      (interpolant e slot i s').2.Idle settings g ∧
      s.slots <+: (interpolant e slot i s').2.slots := by
  obtain ⟨hidle, hp⟩ := hs
  have hslot : slot ∈ s'.slots := hp.subset (List.fst_mem_of_mem_zipIdx hmem)
  obtain ⟨hfrom, hresume⟩ := interpolantStep_from he hidle hslot i
  obtain ⟨s'', hr, hend⟩ := interpolant_runs he hidle hslot i
  obtain ⟨hidle', hg⟩ := interpolant_idle hidle hslot hr
  refine ⟨hfrom, hresume, ?_⟩
  rw [hend]
  exact ⟨hidle', hp.trans hg.slots⟩

theorem interpolants_succession (he : Engine.Follows settings g [] e) (hs : s.Idle settings g) :
    Succession settings g s (sequence (s.slots.zipIdx.map (interpolantStep e)) s)
      (interpolants e s.slots s).2 :=
  Succession.mapM (I := fun s' => s'.Idle settings g ∧ s.slots <+: s'.slots) _ (fun _ h => h.1)
    (fun _ hmem _ hs' => interpolantStep_next he hs' hmem) s ⟨hs, List.prefix_refl _⟩

/-! The evaluations of the two stages, and the state in which they end -/

theorem evaluations_none (ho : gen.material.findKind? .materialOutput = none) (stage : Stage) :
    gen.evaluations stage = [] := by
  rw [evaluations, ho]
  rfl

theorem evaluations_pixel (ho : gen.material.findKind? .materialOutput = some output) :
    gen.evaluations .pixel = sequence ((Parameter.inStage .pixel).map
      (parameterStep gen.evaluator output)) (gen.state.beginStage .pixel) := by
  rw [evaluations, ho]
  exact List.append_nil _

theorem evaluations_vertex (ho : gen.material.findKind? .materialOutput = some output) :
    let p := parameters gen.evaluator output .pixel (gen.state.beginStage .pixel)
    let q := parameters gen.evaluator output .vertex (p.2.takeWriter.2.beginStage .vertex)
    gen.evaluations .vertex =
      sequence ((Parameter.inStage .vertex).map (parameterStep gen.evaluator output))
        (p.2.takeWriter.2.beginStage .vertex) ++
      sequence (q.2.slots.zipIdx.map (interpolantStep gen.evaluator)) q.2 := by
  have hev : gen.evaluations .vertex =
      stageEvaluations gen.evaluator output .vertex (gen.begun output .vertex) := by
    rw [evaluations, ho]
    rfl
  rw [hev, begun, if_pos rfl, stageEvaluations, pixelStage_eq]
  simp only [if_pos]

theorem generate_stages (ho : gen.material.findKind? .materialOutput = some output) :
    let p := parameters gen.evaluator output .pixel (gen.state.beginStage .pixel)
    let q := parameters gen.evaluator output .vertex (p.2.takeWriter.2.beginStage .vertex)
    let r := interpolants gen.evaluator q.2.slots q.2
    gen.generate = (.ok ⟨.ofWriter p.2.writer p.1, .ofWriter r.2.writer (q.1 ++ r.1),
        r.2.slots.length, r.2.textures, r.2.usage, r.2.diagnostics⟩,
      { gen with
        state := r.2.takeWriter.2.record (.finished r.2.slots.length r.2.diagnostics.length) }) := by
  rw [generate_eq ho, stages_eq, pixelStage_eq]
  dsimp only
  rw [vertexStage_eq]
  dsimp only
  generalize parameters gen.evaluator output .pixel (gen.state.beginStage .pixel) = p
  generalize parameters gen.evaluator output .vertex (p.2.takeWriter.2.beginStage .vertex) = q
  generalize interpolants gen.evaluator q.2.slots q.2 = r
  rfl

/-- Generating a material evaluates the two stages one after the other. -/
theorem generate_succession (h : gen.state.Idle gen.settings gen.material)
    (ho : gen.material.findKind? .materialOutput = some output) :
    ∃ s₁ s₂ pixel vertex,
      gen.generate = (.ok ⟨.ofWriter s₁.writer pixel, .ofWriter s₂.writer vertex, s₂.slots.length,
          s₂.textures, s₂.usage, s₂.diagnostics⟩,
        { gen with
          state := s₂.takeWriter.2.record (.finished s₂.slots.length s₂.diagnostics.length) }) ∧
      Succession gen.settings gen.material (gen.state.beginStage .pixel)
        (gen.evaluations .pixel) s₁ ∧
      Succession gen.settings gen.material (s₁.takeWriter.2.beginStage .vertex)
        (gen.evaluations .vertex) s₂ := by
  have he := gen.follows_evaluator
  have hpixel := parameters_succession he (h.beginStage .pixel) output .pixel
  have hbegun := (hpixel.idle.takeWriter).beginStage .vertex
  have hvertex := parameters_succession he hbegun output .vertex
  have hall := hvertex.append (interpolants_succession he hvertex.idle)
  rw [← evaluations_pixel ho] at hpixel
  rw [← evaluations_vertex ho] at hall
  exact ⟨_, _, _, _, generate_stages ho, hpixel, hall⟩

end

end Generator

end ShaderGraph
