import ShaderGraph.Generator
import ShaderGraph.Proofs.Adequacy

/-! Generators between requests. Every value that is asked for at the level of the material, be it
a box, a parameter or an interpolant, is the result of a recipe, so what recipes keep is kept by
every sequence of requests and by the stages of a material. -/

namespace ShaderGraph

/-- What a generator can be asked for before it generates the material. -/
inductive Request where
  | output (node : Nat) (box : BoxId)
  | input (node : Nat) (box : BoxId)
  deriving DecidableEq

namespace Generator

def answer (gen : Generator) : Request → Value Local × Generator
  | .output node box => gen.evaluateOutput node box
  | .input node box => gen.evaluateInput node box

/-- The generator after a sequence of requests. -/
def after (gen : Generator) (requests : List Request) : Generator :=
  requests.foldl (fun gen request => (gen.answer request).2) gen

end Generator

/-! ### Values of the material as recipes -/

namespace Recipe

variable {ρ : Type}

/-- The value of an input box or a given one, cast to a type. -/
def feed (box : BoxId) (type : ValueType) (default : Value ρ) : Recipe ρ (Value ρ) :=
  operandOr box default >>= castTo type

theorem Related.feed {σ : Type} {K : CodeRelation ρ σ} {n : Nat} {v : Value ρ} {w : Value σ}
    (box : BoxId) (type : ValueType) (h : ∀ m, K.Values m v w) :
    Related K K.Values n (.feed box type v) (.feed box type w) :=
  (operandOr box h).bind fun _ _ _ _ h => castTo type h

end Recipe

def Parameter.recipe {ρ : Type} (p : Parameter) : Recipe ρ (Value ρ) :=
  .feed p.box p.type (.literal p.default)

def Slot.recipe {ρ : Type} (slot : Slot) : Recipe ρ (Value ρ) :=
  .feed slot.input.box .float4 (.zero .float4)

/-- The task of a request. -/
def Request.task (s : State) : Request → Task
  | output node box => .box ⟨0, node, box⟩
  | input node box =>
    .recipe ⟨0, node, box⟩ (.operandOr box (.zero (s.boxType ⟨0, node, box⟩)))

theorem Engine.run_castTo (settings : Settings) (e : Evaluator) (key : BoxKey) (type : ValueType)
    (v : Value Local) : run settings e key (.castTo type v) = castTo key type v := by
  unfold Recipe.castTo castTo
  cases v.cast type <;> rfl

theorem Engine.run_feed (settings : Settings) (e : Evaluator) (key : BoxKey) (box : BoxId)
    (type : ValueType) (default : Value Local) (s : State) :
    run settings e key (.feed box type default) s =
      castTo key type ((operand? e (key.sibling box) s).1.getD default)
        (operand? e (key.sibling box) s).2 := by
  rw [← run_castTo settings e]
  rfl

theorem Engine.input_apply (e : Evaluator) (key : BoxKey) (s : State) :
    input e key s = ((operand? e key s).1.getD (.zero ((operand? e key s).2.boxType key)),
      (operand? e key s).2) :=
  rfl

theorem Engine.input_eq (settings : Settings) {e : Evaluator} {key : BoxKey} {s : State}
    (h : (operand? e key s).2.boxType key = s.boxType key) :
    input e key s = run settings e key (.operandOr key.box (.zero (s.boxType key))) s := by
  rw [input_apply, h]
  rfl

namespace Generator

theorem parameter_eq (settings : Settings) (e : Evaluator) (output : Nat) (p : Parameter)
    (s : State) :
    parameter e output p s =
      (⟨p.target, (Engine.run settings e ⟨0, output, p.box⟩ p.recipe s).1⟩,
        (Engine.run settings e ⟨0, output, p.box⟩ p.recipe s).2) := by
  rw [Parameter.recipe, Engine.run_feed]
  rfl

theorem interpolant_eq (settings : Settings) (e : Evaluator) {slot : Slot}
    (h : slot.input = slot.node.sibling slot.input.box) (i : Nat) (s : State) :
    interpolant e slot i s =
      let p := Engine.run settings e slot.node slot.recipe { s with context := slot.context }
      (⟨s!"CustomVSToPS[{i}]", p.1⟩, { p.2 with context := s.context }) := by
  rw [Slot.recipe, Engine.run_feed, ← h]
  rfl

end Generator

/-! ### Between requests -/

/-- Nothing is under way, and the material graph is the current one. -/
structure State.Idle (settings : Settings) (g : Graph) (s : State) : Prop where
  sound : s.Sound settings g
  active : s.active = []
  context : s.context = .root

namespace State.Idle

variable {settings : Settings} {g : Graph} {s s' : State} {t : Task} {v : Value Local}

theorem runs (h : s.Idle settings g) (hl : t.Located s) (hr : Runs settings t s v s') :
    s'.Idle settings g :=
  ⟨hr.sound h.sound hl, hr.grows.active.trans h.active, hr.grows.context.trans h.context⟩

theorem current? (h : s.Idle settings g) : s.context.current? = some 0 := by
  rw [h.context]
  rfl

theorem beginStage (h : s.Idle settings g) (stage : Stage) :
    (s.beginStage stage).Idle settings g :=
  ⟨{ h.sound.record (e := .stageBegun stage) trivial with
      active := ⟨List.nodup_nil, fun _ hp => absurd hp List.not_mem_nil⟩ }, rfl, h.context⟩

theorem takeWriter (h : s.Idle settings g) : s.takeWriter.2.Idle settings g :=
  ⟨{ h.sound with }, h.active, h.context⟩

end State.Idle

theorem Parameter.recipe_callFree (p : Parameter) : (p.recipe : Recipe Local _).CallFree :=
  ⟨0, .feed _ _ fun _ => .literal _⟩

theorem Parameter.located {settings : Settings} {g : Graph} {s : State} (h : s.Idle settings g)
    (p : Parameter) (output : Nat) : (Task.recipe ⟨0, output, p.box⟩ p.recipe).Located s :=
  ⟨h.current?, p.recipe_callFree⟩

theorem Slot.recipe_callFree (slot : Slot) : (slot.recipe : Recipe Local _).CallFree :=
  ⟨0, .feed _ _ fun _ => .zero _⟩

theorem Request.task_located {settings : Settings} {g : Graph} {s : State}
    (h : s.Idle settings g) (request : Request) : (request.task s).Located s := by
  cases request with
  | output node box => exact h.current?
  | input node box => exact ⟨h.current?, 0, .operandOr _ fun _ => .zero _⟩

theorem State.boxType_eq {s s' : State} (hp : s.instances <+: s'.instances) (key : BoxKey)
    (hk : key.graph < s.instances.length) : s'.boxType key = s.boxType key := by
  obtain ⟨rest, hrest⟩ := hp
  unfold boxType box? instance?
  rw [← hrest, List.getElem?_append_left hk]

namespace Generator

variable {gen : Generator}

theorem follows_evaluator (gen : Generator) :
    Engine.Follows gen.settings gen.material [] gen.evaluator :=
  Engine.follows_output

theorem answer_runs (h : gen.state.Idle gen.settings gen.material) (request : Request) :
    Runs gen.settings (request.task gen.state) gen.state (gen.answer request).1
      (gen.answer request).2.state := by
  have hl := request.task_located h
  cases request with
  | output node box => exact gen.follows_evaluator _ _ h.sound hl h.active
  | input node box =>
    have hrun := gen.follows_evaluator.recipe _ _ _ h.sound hl h.active
    have hroot := (List.getElem?_eq_some_iff.mp h.sound.tree.root).1
    have htype := State.boxType_eq hrun.grows.instances ⟨0, node, box⟩ hroot
    have hinput : Engine.input gen.evaluator ⟨0, node, box⟩ gen.state = _ :=
      Engine.input_eq gen.settings htype
    change Runs _ _ _ (Engine.input gen.evaluator ⟨0, node, box⟩ gen.state).1
      (Engine.input gen.evaluator ⟨0, node, box⟩ gen.state).2
    rw [hinput]
    exact hrun

/-- What requests keep one by one is kept by every sequence of them. -/
theorem after_induction (P : State → Prop)
    (hP : ∀ (request : Request) s v s', s.Idle gen.settings gen.material →
      Runs gen.settings (request.task s) s v s' → P s → P s')
    (h : gen.state.Idle gen.settings gen.material) (h0 : P gen.state) (requests : List Request) :
    (gen.after requests).settings = gen.settings ∧ (gen.after requests).material = gen.material ∧
      (gen.after requests).state.Idle gen.settings gen.material ∧ P (gen.after requests).state := by
  induction requests generalizing gen with
  | nil => exact ⟨rfl, rfl, h, h0⟩
  | cons request requests ih =>
    have hrun := answer_runs h request
    have hsettings : (gen.answer request).2.settings = gen.settings := by cases request <;> rfl
    have hmaterial : (gen.answer request).2.material = gen.material := by cases request <;> rfl
    have hnext := h.runs (request.task_located h) hrun
    have hkept := hP request _ _ _ h hrun h0
    rw [← hsettings, ← hmaterial] at hP hnext
    obtain ⟨h₁, h₂, h₃, h₄⟩ := ih hP hnext hkept
    rw [hsettings] at h₁ h₃
    rw [hmaterial] at h₂ h₃
    exact ⟨h₁, h₂, h₃, h₄⟩

/-- Requests change nothing but the state, and leave nothing under way. -/
theorem after_idle (h : gen.state.Idle gen.settings gen.material) (requests : List Request) :
    (gen.after requests).settings = gen.settings ∧ (gen.after requests).material = gen.material ∧
      (gen.after requests).state.Idle gen.settings gen.material := by
  obtain ⟨hset, hmat, hidle, -⟩ := after_induction (fun _ => True) (fun _ _ _ _ _ _ h => h) h
    trivial requests
  exact ⟨hset, hmat, hidle⟩

/-- A generator for any graph, libraries and configuration, before any request. -/
theorem idle_new (g : Graph) (domain : Domain) (resolver : Resolver) (config : Config) :
    State.Idle ((new g domain resolver).withConfig config).settings g (.ofGraph g) :=
  ⟨State.sound_ofGraph _ g, rfl, rfl⟩

/-- The same after any requests. -/
theorem idle_after (g : Graph) (domain : Domain) (resolver : Resolver) (config : Config)
    (requests : List Request) :
    let gen := ((new g domain resolver).withConfig config).after requests
    gen.settings.resolver = resolver ∧ gen.material = g ∧
      gen.state.Idle gen.settings gen.material := by
  obtain ⟨hs, hm, hidle⟩ := after_idle (idle_new g domain resolver config) requests
  dsimp only
  rw [hs, hm]
  exact ⟨rfl, rfl, hidle⟩

end Generator

end ShaderGraph
