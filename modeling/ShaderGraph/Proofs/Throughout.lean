import ShaderGraph.Proofs.Succession

/-! What holds throughout a run of a generator: before and after everything that is evaluated while
requests are answered and while the material is generated. It is enough that the rules of evaluation
pass it on, and that it holds of what the generator starts between requests. -/

namespace ShaderGraph

namespace Evaluation

/-- The evaluation starts in a sound state, in the current graph. -/
structure Proper (settings : Settings) (g : Graph) (x : Evaluation) : Prop where
  sound : x.before.Sound settings g
  located : x.task.Located x.before

/-- What holds before an evaluation is passed on to those it needs, and what holds after these is
passed back to it. -/
structure Passes (settings : Settings) (g : Graph) (B A : Evaluation → Prop) : Prop where
  leaf : ∀ {x}, x.Needs settings [] → x.Proper settings g → B x → A x
  unary : ∀ {x y}, x.Needs settings [y] → x.Proper settings g → B x →
    B y ∧ (Runs settings y.task y.before y.value y.after → A y → A x)
  binary : ∀ {x y z}, x.Needs settings [y, z] → x.Proper settings g → B x →
    B y ∧ (Runs settings y.task y.before y.value y.after → A y → B z) ∧ (A z → A x)

/-- An evaluation of a run, with what holds before and after it. -/
structure Fulfils (settings : Settings) (g : Graph) (B A : Evaluation → Prop) (x : Evaluation) :
    Prop where
  proper : x.Proper settings g
  runs : Runs settings x.task x.before x.value x.after
  before : B x
  after : A x

variable {settings : Settings} {g : Graph} {B A : Evaluation → Prop} {x : Evaluation}
  {xs l : List Evaluation} {s s' : State}

theorem From.proper (h : x.From settings g s) : x.Proper settings g := ⟨h.sound, h.located⟩

/-- What does not depend on the context holds where the evaluation starts. -/
theorem From.of_context {P : State → Prop} (h : x.From settings g s)
    (hP : ∀ c, P { s with context := c }) : P x.before := by
  obtain ⟨c, hc⟩ := h.before
  rw [hc]
  exact hP c

theorem Fulfils.sound_after (h : x.Fulfils settings g B A) : x.after.Sound settings g :=
  h.runs.sound h.proper.sound h.proper.located

/-- What is passed on holds of all members of a course. -/
theorem Passes.course (hp : Passes settings g B A) (h : Course settings x l)
    (hproper : x.Proper settings g) (hx : B x) : ∀ y ∈ l, y.Fulfils settings g B A := by
  have hl : ∀ y ∈ l, y.Proper settings g := fun y hy =>
    have hy := h.sound hproper.sound hproper.located y hy
    ⟨hy.1, hy.2⟩
  clear hproper
  induction h with
  | @leaf x h =>
    have hproper := hl x List.mem_cons_self
    have hself : x.Fulfils settings g B A :=
      ⟨hproper, (Course.leaf h).runs, hx, hp.leaf h hproper hx⟩
    simpa using hself
  | @unary x y l h hy ih =>
    have hproper := hl x List.mem_cons_self
    obtain ⟨hB, hup⟩ := hp.unary h hproper hx
    have hrest := ih hB fun z hz => hl z (List.mem_cons_of_mem x hz)
    have hself : x.Fulfils settings g B A :=
      ⟨hproper, (Course.unary h hy).runs, hx, hup hy.runs (hrest y hy.self_mem).after⟩
    simpa using ⟨hself, hrest⟩
  | @binary x y z l l' h hy hz ihy ihz =>
    have hproper := hl x List.mem_cons_self
    obtain ⟨hB, hnext, hup⟩ := hp.binary h hproper hx
    have hfirst := ihy hB fun w hw => hl w (List.mem_cons_of_mem x (List.mem_append_left l' hw))
    have hsecond := ihz (hnext hy.runs (hfirst y hy.self_mem).after) fun w hw =>
      hl w (List.mem_cons_of_mem x (List.mem_append_right l hw))
    have hself : x.Fulfils settings g B A :=
      ⟨hproper, (Course.binary h hy hz).runs, hx, hup (hsecond z hz.self_mem).after⟩
    intro w hw
    rcases List.mem_cons.mp hw with rfl | hw
    · exact hself
    · exact (List.mem_append.mp hw).elim (hfirst w) (hsecond w)

/-- Between the evaluations of a succession the predicate `P` holds of the state. -/
theorem Passes.succession {P : State → Prop} (hp : Passes settings g B A)
    (hstart : ∀ x ∈ xs, ∀ s₁, P s₁ → s.Extends x.before → x.From settings g s₁ → B x)
    (hend : ∀ (s₁ : State) x, A x → P (s₁.resume x)) (h : Succession settings g s xs s')
    (hl : Courses settings xs l) (hs : P s) :
    (∀ y ∈ l, y.Fulfils settings g B A) ∧ P s' := by
  induction h generalizing l with
  | nil =>
    cases hl
    exact ⟨by simp, hs⟩
  | @cons s x xs s' hx _ ih =>
    cases hl with
    | cons hc hcs =>
      have hB := hstart x List.mem_cons_self s hs hx.extends hx
      have hfirst := hp.course hc hx.proper hB
      have hresume : s.Extends (s.resume x) := by
        have hafter : x.after.Extends (s.resume x) := .of_eq rfl rfl rfl
        exact (hx.extends.trans hx.runs.grows.extends).trans hafter
      obtain ⟨hrest, hlast⟩ := ih (fun y hy s₁ hs₁ hext =>
        hstart y (List.mem_cons_of_mem x hy) s₁ hs₁ (hresume.trans hext)) hcs
        (hend s x (hfirst x hc.self_mem).after)
      exact ⟨fun y hy => (List.mem_append.mp hy).elim (hfirst y) (hrest y), hlast⟩

end Evaluation

namespace Generator

open Evaluation

/-- Everything that is evaluated while requests are answered and the material is generated. -/
def allEvaluations (gen : Generator) (requests : List Request) : List Evaluation :=
  gen.requested requests ++
    ((gen.after requests).evaluations .pixel ++ (gen.after requests).evaluations .vertex)

/-- The states that a generator goes through: those between requests, those before and after each
evaluation of a run, and the one in which the material is generated. -/
inductive Reaches (gen : Generator) : State → Prop
  | answered (requests : List Request) : gen.Reaches (gen.after requests).state
  | generated (requests : List Request) : gen.Reaches (gen.after requests).generate.2.state
  | before {requests l y} (hl : Courses gen.settings (gen.allEvaluations requests) l)
      (hy : y ∈ l) : gen.Reaches y.before
  | after {requests l y} (hl : Courses gen.settings (gen.allEvaluations requests) l)
      (hy : y ∈ l) : gen.Reaches y.after

/-- The predicates hold throughout every run: `P` of the state between evaluations, `B` before each
evaluation and `A` after it. -/
structure Throughout (settings : Settings) (g : Graph) (P : State → Prop)
    (B A : Evaluation → Prop) : Prop where
  passes : Passes settings g B A
  request : ∀ {s x} (request : Request), P s → x.From settings g s → x.before = s →
    x.task = request.task s → B x
  parameter : ∀ {s x output p}, g.findKind? .materialOutput = some output → P s →
    x.From settings g s → x.task = .recipe ⟨0, output, p.box⟩ (Parameter.recipe p) → B x
  interpolant : ∀ {s s₁ x slot}, P s → slot ∈ s.slots → s.Extends x.before → P s₁ →
    x.From settings g s₁ → x.task = .recipe slot.node (Slot.recipe slot) → B x
  resume : ∀ (s : State) {x}, A x → P (s.resume x)
  beginStage : ∀ {s} stage, P s → P (s.beginStage stage)
  takeWriter : ∀ {s}, P s → P s.takeWriter.2
  record : ∀ {s} e, P s → P (s.record e)

namespace Throughout

variable {settings : Settings} {g : Graph} {P : State → Prop} {B A : Evaluation → Prop}
  {gen : Generator} {l : List Evaluation} {s : State} {e : Evaluator} {output : Nat}

theorem requested (h : Throughout gen.settings gen.material P B A)
    (hidle : gen.state.Idle gen.settings gen.material) (h0 : P gen.state)
    (requests : List Request) (hl : Courses gen.settings (gen.requested requests) l) :
    (∀ y ∈ l, y.Fulfils gen.settings gen.material B A) ∧ P (gen.after requests).state := by
  induction requests generalizing gen l with
  | nil =>
    cases hl
    exact ⟨by simp, h0⟩
  | cons request requests ih =>
    obtain ⟨hfrom, hresume⟩ := requestStep_from hidle request
    cases hl with
    | cons hc hcs =>
      have hB := h.request request h0 hfrom rfl rfl
      have hfirst := h.passes.course hc hfrom.proper hB
      have hP := h.resume gen.state (hfirst _ hc.self_mem).after
      have hidle' := hfrom.idle_resume
      rw [hresume] at hP hidle' hcs
      have hgen : (gen.answer request).2 =
          { gen with state := (gen.answer request).2.state } := by cases request <;> rfl
      have hrest := @ih { gen with state := (gen.answer request).2.state } _ h hidle' hP hcs
      rw [after, List.foldl_cons, hgen]
      exact ⟨fun y hy => (List.mem_append.mp hy).elim (hfirst y) (hrest.1 y), hrest.2⟩

/-- A single answer. -/
theorem answer (h : Throughout gen.settings gen.material P B A)
    (hidle : gen.state.Idle gen.settings gen.material) (h0 : P gen.state) (request : Request) :
    (gen.requestStep request gen.state).Fulfils gen.settings gen.material B A := by
  obtain ⟨hfrom, -⟩ := requestStep_from hidle request
  obtain ⟨l, hc⟩ := hfrom.runs.course
  exact h.passes.course hc hfrom.proper (h.request request h0 hfrom rfl rfl) _ hc.self_mem

theorem parameters (h : Throughout settings g P B A) (he : Engine.Follows settings g [] e)
    (hs : s.Idle settings g) (ho : g.findKind? .materialOutput = some output) (h0 : P s)
    (stage : Stage)
    (hl : Courses settings
      (sequence ((Parameter.inStage stage).map (parameterStep e output)) s) l) :
    (∀ y ∈ l, y.Fulfils settings g B A) ∧ P (Generator.parameters e output stage s).2 := by
  refine h.passes.succession (fun x hx s₁ hP _ hfrom => ?_) (fun s _ => h.resume s)
    (parameters_succession he hs output stage) hl h0
  obtain ⟨step, hstep, s', rfl⟩ := mem_sequence hx
  obtain ⟨p, -, rfl⟩ := List.mem_map.mp hstep
  exact h.parameter (p := p) ho hP hfrom rfl

theorem interpolants (h : Throughout settings g P B A) (he : Engine.Follows settings g [] e)
    (hs : s.Idle settings g) (h0 : P s)
    (hl : Courses settings (sequence (s.slots.zipIdx.map (interpolantStep e)) s) l) :
    (∀ y ∈ l, y.Fulfils settings g B A) ∧ P (Generator.interpolants e s.slots s).2 := by
  refine h.passes.succession (fun x hx s₁ hP hext hfrom => ?_) (fun s _ => h.resume s)
    (interpolants_succession he hs) hl h0
  obtain ⟨step, hstep, s', rfl⟩ := mem_sequence hx
  obtain ⟨slot, hslot, rfl⟩ := List.mem_map.mp hstep
  exact h.interpolant h0 (List.fst_mem_of_mem_zipIdx hslot) hext hP hfrom rfl

theorem generate (h : Throughout gen.settings gen.material P B A)
    (hidle : gen.state.Idle gen.settings gen.material) (h0 : P gen.state)
    (hl : Courses gen.settings (gen.evaluations .pixel ++ gen.evaluations .vertex) l) :
    (∀ y ∈ l, y.Fulfils gen.settings gen.material B A) ∧ P gen.generate.2.state := by
  cases ho : gen.material.findKind? .materialOutput with
  | none =>
    rw [evaluations_none ho, evaluations_none ho] at hl
    cases hl
    rw [generate_none ho]
    exact ⟨by simp, h0⟩
  | some output =>
    have he := gen.follows_evaluator
    have hpixel := parameters_succession he (hidle.beginStage .pixel) output .pixel
    have hbegun := (hpixel.idle.takeWriter).beginStage .vertex
    have hvertex := parameters_succession he hbegun output .vertex
    obtain ⟨l₁, l', rfl, hl₁, hl'⟩ := hl.of_append
    rw [evaluations_pixel ho] at hl₁
    rw [evaluations_vertex ho] at hl'
    obtain ⟨l₂, l₃, rfl, hl₂, hl₃⟩ := hl'.of_append
    obtain ⟨h₁, hP₁⟩ := h.parameters he (hidle.beginStage .pixel) ho (h.beginStage .pixel h0)
      .pixel hl₁
    obtain ⟨h₂, hP₂⟩ := h.parameters he hbegun ho (h.beginStage .vertex (h.takeWriter hP₁))
      .vertex hl₂
    obtain ⟨h₃, hP₃⟩ := h.interpolants he hvertex.idle hP₂ hl₃
    rw [generate_stages ho]
    refine ⟨fun y hy => ?_, h.record _ (h.takeWriter hP₃)⟩
    rcases List.mem_append.mp hy with hy | hy
    · exact h₁ y hy
    · exact (List.mem_append.mp hy).elim (h₂ y) (h₃ y)

/-- All evaluations of a run, and the states before and after the material is generated. -/
theorem run (h : Throughout gen.settings gen.material P B A)
    (hidle : gen.state.Idle gen.settings gen.material) (h0 : P gen.state)
    (requests : List Request) (hl : Courses gen.settings (gen.allEvaluations requests) l) :
    (∀ y ∈ l, y.Fulfils gen.settings gen.material B A) ∧ P (gen.after requests).state ∧
      P (gen.after requests).generate.2.state := by
  obtain ⟨l₁, l₂, rfl, hl₁, hl₂⟩ := hl.of_append
  obtain ⟨h₁, hP⟩ := h.requested hidle h0 requests hl₁
  obtain ⟨hset, hmat, hidle'⟩ := after_idle hidle requests
  have hgen : Throughout (gen.after requests).settings (gen.after requests).material P B A := by
    rw [hset, hmat]
    exact h
  rw [← hset] at hidle' hl₂
  rw [← hmat] at hidle'
  obtain ⟨h₂, hP'⟩ := hgen.generate hidle' hP hl₂
  rw [hset, hmat] at h₂
  exact ⟨fun y hy => (List.mem_append.mp hy).elim (h₁ y) (h₂ y), hP, hP'⟩

end Throughout

section

variable {gen : Generator} {s : State} {P : State → Prop} {B A : Evaluation → Prop}

theorem exists_courses (h : gen.state.Idle gen.settings gen.material) (requests : List Request) :
    ∃ l, Courses gen.settings (gen.allEvaluations requests) l := by
  obtain ⟨l₁, hl₁⟩ := (requested_succession h requests).courses
  obtain ⟨hset, hmat, hidle⟩ := after_idle h requests
  rw [← hset, ← hmat] at hidle
  suffices hstages : ∃ l, Courses (gen.after requests).settings
      ((gen.after requests).evaluations .pixel ++ (gen.after requests).evaluations .vertex) l by
    obtain ⟨l₂, hl₂⟩ := hstages
    rw [hset] at hl₂
    exact ⟨l₁ ++ l₂, hl₁.append hl₂⟩
  cases ho : (gen.after requests).material.findKind? .materialOutput with
  | none =>
    rw [evaluations_none ho, evaluations_none ho]
    exact ⟨[], .nil⟩
  | some output =>
    obtain ⟨_, _, _, _, -, hpixel, hvertex⟩ := generate_succession hidle ho
    obtain ⟨l, hl⟩ := hpixel.courses
    obtain ⟨l', hl'⟩ := hvertex.courses
    exact ⟨l ++ l', hl.append hl'⟩

/-- What holds throughout every run holds of all states that are reached. -/
theorem Throughout.reaches (h : Throughout gen.settings gen.material P B A)
    (hidle : gen.state.Idle gen.settings gen.material) (h0 : P gen.state)
    (hB : ∀ y, B y → P y.before) (hA : ∀ y, A y → P y.after) (hs : gen.Reaches s) :
    s.Sound gen.settings gen.material ∧ P s := by
  cases hs with
  | answered requests =>
    obtain ⟨l, hl⟩ := exists_courses hidle requests
    exact ⟨(after_idle hidle requests).2.2.sound, (h.run hidle h0 requests hl).2.1⟩
  | generated requests =>
    obtain ⟨l, hl⟩ := exists_courses hidle requests
    obtain ⟨hset, hmat, hidle'⟩ := after_idle hidle requests
    rw [← hset, ← hmat] at hidle'
    have hlast := (generate_idle hidle').sound
    rw [hset, hmat] at hlast
    exact ⟨hlast, (h.run hidle h0 requests hl).2.2⟩
  | @before requests l y hl hy =>
    have hy := (h.run hidle h0 requests hl).1 y hy
    exact ⟨hy.proper.sound, hB y hy.before⟩
  | @after requests l y hl hy =>
    have hy := (h.run hidle h0 requests hl).1 y hy
    exact ⟨hy.sound_after, hA y hy.after⟩

/-- What holds of the values of all evaluations holds of the outputs of both stages. -/
theorem Throughout.outputs (h : Throughout gen.settings gen.material P B A)
    (hidle : gen.state.Idle gen.settings gen.material) (h0 : P gen.state)
    {V : Value Local → Prop} (hV : ∀ y, A y → V y.value) {m : Material}
    (hm : gen.generate.1 = .ok m) : ∀ o ∈ m.pixel.outputs ++ m.vertex.outputs, V o.value := by
  obtain ⟨output, ho, rfl⟩ := generate_ok hm
  have hx {s : State} {x : Evaluation} (hx : x.From gen.settings gen.material s) (hB : B x) :
      P (s.resume x) ∧ V x.value := by
    obtain ⟨l, hc⟩ := hx.runs.course
    have hA := (h.passes.course hc hx.proper hB x hc.self_mem).after
    exact ⟨h.resume s hA, hV x hA⟩
  have hk : Keeps gen.settings gen.material output P (fun _ v _ => V v) (fun v _ => V v) := by
    constructor
    case stable => exact fun _ _ _ _ _ hv => hv
    case stable' => exact fun _ _ _ _ hv => hv
    case onParameter =>
      intro p s v s' hs hP hr
      have hfrom : Evaluation.From gen.settings gen.material s ⟨_, s, v, s'⟩ :=
        ⟨hs, ⟨s.context, rfl⟩, hs.sound, p.located hs output, .recipe (Recipe.silent_feed _ _ _), hr⟩
      obtain ⟨hP', hv⟩ := hx hfrom (h.parameter ho hP hfrom rfl)
      rw [resume_of_context hr.grows.context] at hP'
      exact ⟨hP', hv⟩
    case onInterpolant =>
      intro slot s v s' hslot hs hP hr
      obtain ⟨hvalid, hcur, -⟩ := hs.sound.slots slot hslot
      have hfrom : Evaluation.From gen.settings gen.material s
          ⟨.recipe slot.node slot.recipe, { s with context := slot.context }, v, s'⟩ :=
        ⟨hs, ⟨slot.context, rfl⟩, hs.sound.withContext hvalid, ⟨hcur, slot.recipe_callFree⟩,
          .recipe (Recipe.silent_feed _ _ _), hr⟩
      exact hx hfrom (h.interpolant hP hslot (.of_eq rfl rfl rfl) hP hfrom rfl)
  obtain ⟨s₁, s₂, pixel, vertex, interpolants, -, heq, -, -, -, hout₁, -, -, -, hout₂, hint⟩ :=
    hk.stages (fun _ => hk) gen.follows_evaluator hidle (h.beginStage .pixel h0) fun s _ hP =>
      h.beginStage .vertex (h.takeWriter hP)
  rw [heq]
  intro o hmem
  rcases List.mem_append.mp hmem with hmem | hmem
  · exact Eval.forall₂_right (hout₁.imp fun _ _ ho => ho.2) o hmem
  · rcases List.mem_append.mp hmem with hmem | hmem
    · exact Eval.forall₂_right (hout₂.imp fun _ _ ho => ho.2) o hmem
    · exact hint o hmem

end

end Generator

end ShaderGraph
