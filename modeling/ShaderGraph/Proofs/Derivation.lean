import ShaderGraph.Evaluation.Engine

/-! Evaluation as a derivation. The evaluator recurs on a bound; here the same evaluation is a
relation without one. There is a rule for each thing that can happen to a box, a node or a recipe,
which says what other evaluations it is made of. What every evaluation keeps is proved by induction
on how it is made. A derivation is found by every sufficiently deep unrolling of the evaluator,
whatever is put at the end of the unrolling, so the relation is a function. -/

namespace ShaderGraph

/-- The function that a call node asks for. -/
def Node.callee (n : Node) : AssetId := ((n.param? 0).bind Param.asset?).getD .nil

/-- The box of the call that holds the argument for an input node of the called graph. -/
def CallFrame.argument? (frame : CallFrame) (id : NodeId) : Option BoxKey :=
  let i := frame.function.inputs.idxOf id
  if i < frame.function.inputs.length ∧ i < FunctionCall.inputCount then
    some ⟨frame.caller, frame.site, FunctionCall.inputBox i⟩
  else none

namespace State

/-- The node of a site gets under way. -/
def start (s : State) (site : Site) : State :=
  { s.record (.dispatched site.key site.node.kind site.node.id s.context s.active) with
    active := (site.key.graph, site.key.node) :: s.active }

/-- A node is done, and the value of its box remembered unless the recipe has seen to that. -/
def finish (s : State) (key : BoxKey) (v : Value Local) : State :=
  let s := { s with active := s.active.erase (key.graph, key.node) }
  if (s.remembered? key).isNone then s.remember key (some v) else s

/-- A function is asked for. -/
def ask (s : State) (id : AssetId) : State :=
  { s.use .functions with loads := s.loads ++ [id] }

end State

/-- What a request does at once, and the recipe that is left. Operands are no such requests. -/
def Recipe.effect? {α : Type} (settings : Settings) (key : BoxKey) (s : State) :
    Recipe Local α → Option (Recipe Local α × State)
  | done _ | operand .. => none
  | declare type init next =>
    some (next (s.writer.declare type init).1, { s with writer := (s.writer.declare type init).2 })
  | block body next => some (next, { s with writer := s.writer.push (.block body) })
  | comment text next =>
    some (next, if settings.comments then { s with writer := s.writer.push (.comment text) } else s)
  | report cause next => some (next, s.report key cause)
  | use feature next => some (next, s.use feature)
  | sample texture next => some (next, s.sample texture)
  | remember box value next => some (next, s.remember (key.sibling box) value)
  | claim input next =>
    some (next (s.claim settings key (key.sibling input)).1,
      (s.claim settings key (key.sibling input)).2)

/-- What can be evaluated: an output box, a node for one of its boxes, or what is left of a
recipe. -/
inductive Task where
  | box (key : BoxKey)
  | node (site : Site)
  | recipe (key : BoxKey) (r : Recipe Local (Value Local))

/-- An evaluation: a task, the state in which it starts, its value, and the state in which it
ends. -/
structure Evaluation where
  task : Task
  before : State
  value : Value Local
  after : State

namespace Evaluation

/-- `x.Needs settings ys`: by one of the rules, the evaluation `x` is made of the evaluations `ys`,
in this order. -/
inductive Needs (settings : Settings) : Evaluation → List Evaluation → Prop
  | remembered {key s v} (hm : s.remembered? key = some v) : Needs settings ⟨.box key, s, v, s⟩ []
  | absent {key s} (hm : s.remembered? key = none) (hs : s.site? key = none) :
      Needs settings ⟨.box key, s, .zero .float1, s⟩ []
  | reentered {key s site} (hm : s.remembered? key = none) (hs : s.site? key = some site)
      (ha : (key.graph, key.node) ∈ s.active) :
      Needs settings ⟨.box key, s, .zero (s.boxType key),
        s.report key (.dependsOnItself site.node.id)⟩ []
  | dispatched {key s site v s'} (hm : s.remembered? key = none) (hs : s.site? key = some site)
      (ha : (key.graph, key.node) ∉ s.active) :
      Needs settings ⟨.box key, s, v, s'.finish key v⟩ [⟨.node site, s.start site, v, s'⟩]
  | plain {site s v s'} (hc : site.node.kind ≠ .materialFunction)
      (hi : site.node.kind ≠ .functionInput) :
      Needs settings ⟨.node site, s, v, s'⟩
        [⟨.recipe site.key (site.recipe settings.domain s.stage), s, v, s'⟩]
  -- calls
  | notLoaded {site s e} (hk : site.node.kind = .materialFunction)
      (hl : settings.resolver.load s.loads.length site.node.callee = .error e) :
      Needs settings ⟨.node site, s, .zero .float1,
        ((s.ask site.node.callee).record (.notLoaded e)).report site.key
          (.missingOrInvalidAsset site.node.callee)⟩ []
  | recursive {site s function} (hk : site.node.kind = .materialFunction)
      (hl : settings.resolver.load s.loads.length site.node.callee = .ok function)
      (hc : s.isCalling site.node.callee = true) :
      Needs settings ⟨.node site, s, .zero .float1,
        (s.ask site.node.callee).report site.key (.recursiveCall site.node.callee)⟩ []
  | unlisted {site s function graph s'} (hk : site.node.kind = .materialFunction)
      (hl : settings.resolver.load s.loads.length site.node.callee = .ok function)
      (hc : s.isCalling site.node.callee = false)
      (hi : (s.ask site.node.callee).instantiate site function = (graph, s'))
      (ho : Engine.outputNode? s' site function graph = none) :
      Needs settings ⟨.node site, s, .zero .float1,
        s'.report site.key (.invalidOutput site.box)⟩ []
  | unfed {site s function graph s' output} (hk : site.node.kind = .materialFunction)
      (hl : settings.resolver.load s.loads.length site.node.callee = .ok function)
      (hc : s.isCalling site.node.callee = false)
      (hi : (s.ask site.node.callee).instantiate site function = (graph, s'))
      (ho : Engine.outputNode? s' site function graph = some output)
      (hp : s'.producer? ⟨graph, output, 0⟩ = none) :
      Needs settings ⟨.node site, s, .zero .float1, s'⟩ []
  | called {site s function graph s' output producer v s''}
      (hk : site.node.kind = .materialFunction)
      (hl : settings.resolver.load s.loads.length site.node.callee = .ok function)
      (hc : s.isCalling site.node.callee = false)
      (hi : (s.ask site.node.callee).instantiate site function = (graph, s'))
      (ho : Engine.outputNode? s' site function graph = some output)
      (hp : s'.producer? ⟨graph, output, 0⟩ = some producer) :
      Needs settings ⟨.node site, s, v, { s'' with context := s''.context.leave }⟩
        [⟨.box producer,
          { s' with context := s'.context.enter ⟨site.key.graph, site.key.node, graph, function⟩ },
          v, s''⟩]
  -- function inputs
  | outside {site s} (hk : site.node.kind = .functionInput)
      (hf : ∀ frame, s.context.currentFrame? = some frame → frame.graph ≠ site.key.graph) :
      Needs settings ⟨.node site, s, .zero .float1, s.report site.key .missingCall⟩ []
  | undeclared {site s frame} (hk : site.node.kind = .functionInput)
      (hf : s.context.currentFrame? = some frame) (hg : frame.graph = site.key.graph)
      (ha : frame.argument? site.node.id = none) :
      Needs settings ⟨.node site, s, .zero .float1,
        s.report site.key (.invalidInput site.node.id)⟩ []
  | passed {site s frame box producer v s'} (hk : site.node.kind = .functionInput)
      (hf : s.context.currentFrame? = some frame) (hg : frame.graph = site.key.graph)
      (ha : frame.argument? site.node.id = some box) (hp : s.producer? box = some producer) :
      Needs settings ⟨.node site, s, v, { s' with context := s'.context.back frame.graph }⟩
        [⟨.box producer, { s with context := s.context.inCaller }, v, s'⟩]
  | defaulted {site s frame box v s'} (hk : site.node.kind = .functionInput)
      (hf : s.context.currentFrame? = some frame) (hg : frame.graph = site.key.graph)
      (ha : frame.argument? site.node.id = some box) (hp : s.producer? box = none) :
      Needs settings ⟨.node site, s, v, s'⟩
        [⟨.recipe site.key (Recipe.operandOrParam site 1 1), s, v, s'⟩]
  -- recipes
  | done {key s v} : Needs settings ⟨.recipe key (.done v), s, v, s⟩ []
  | connected {key s box next producer a s₁ v s₂}
      (hp : s.producer? (key.sibling box) = some producer) :
      Needs settings ⟨.recipe key (.operand box next), s, v, s₂⟩
        [⟨.box producer, s, a, s₁⟩, ⟨.recipe key (next (some a)), s₁, v, s₂⟩]
  | unconnected {key s box next v s'} (hp : s.producer? (key.sibling box) = none) :
      Needs settings ⟨.recipe key (.operand box next), s, v, s'⟩
        [⟨.recipe key (next none), s, v, s'⟩]
  | effect {key s r r' s₁ v s₂} (he : r.effect? settings key s = some (r', s₁)) :
      Needs settings ⟨.recipe key r, s, v, s₂⟩ [⟨.recipe key r', s₁, v, s₂⟩]

end Evaluation

/-- `Runs settings t s v s'`: the task `t` in the state `s` gives the value `v` and ends in `s'`.
The evaluation is made of others by the rules, down to those that need none. -/
inductive Runs (settings : Settings) : Task → State → Value Local → State → Prop
  | leaf {t s v s'} (h : Evaluation.Needs settings ⟨t, s, v, s'⟩ []) : Runs settings t s v s'
  | unary {t s v s'} {y : Evaluation} (h : Evaluation.Needs settings ⟨t, s, v, s'⟩ [y])
      (hy : Runs settings y.task y.before y.value y.after) : Runs settings t s v s'
  | binary {t s v s'} {y z : Evaluation} (h : Evaluation.Needs settings ⟨t, s, v, s'⟩ [y, z])
      (hy : Runs settings y.task y.before y.value y.after)
      (hz : Runs settings z.task z.before z.value z.after) : Runs settings t s v s'

namespace Eval

variable {α β : Type}

@[simp] theorem bind_apply (x : Eval α) (f : α → Eval β) (s : State) :
    (x >>= f) s = f (x s).1 (x s).2 := rfl

@[simp] theorem pure_apply (a : α) (s : State) : (pure a : Eval α) s = (a, s) := rfl

@[simp] theorem get_apply (s : State) : (get : Eval State) s = (s, s) := rfl

@[simp] theorem modify_apply (f : State → State) (s : State) :
    (modify f : Eval Unit) s = ((), f s) := rfl

@[simp] theorem modifyGet_apply (f : State → α × State) (s : State) :
    (modifyGet f : Eval α) s = f s := rfl

end Eval

namespace State

theorem site?_some {s : State} {key : BoxKey} {site : Site} (h : s.site? key = some site) :
    ∃ inst node, s.instances[key.graph]? = some inst ∧ inst.graph.node? key.node = some node ∧
      site = ⟨key, inst.graph, node⟩ := by
  simp only [site?, bind, Option.bind_eq_some_iff, pure, Option.some.injEq] at h
  obtain ⟨inst, hi, node, hn, rfl⟩ := h
  exact ⟨inst, node, hi, hn, rfl⟩

theorem key_of_site? {s : State} {key : BoxKey} {site : Site} (h : s.site? key = some site) :
    site.key = key := by
  obtain ⟨inst, node, -, -, rfl⟩ := site?_some h
  rfl

end State

namespace Engine

variable {settings : Settings} {e : Evaluator} {s : State} {site : Site}

/-! ### One level of the evaluator -/

/-- The evaluator unrolled to a depth, with another evaluator at the end. -/
def unroll (settings : Settings) (base : Evaluator) : Nat → Evaluator
  | 0 => base
  | depth + 1 => level settings (unroll settings base depth)

theorem output_eq_unroll (settings : Settings) (fuel : Nat) :
    output settings fuel = unroll settings (fun _ => return .zero .float1) fuel := by
  induction fuel with
  | zero => rfl
  | succ fuel ih => rw [output, unroll, ih]

theorem dispatch_eq (settings : Settings) (e : Evaluator) (site : Site) (s : State) :
    dispatch settings e site s =
      ((process settings e site (s.start site)).1,
        (process settings e site (s.start site)).2.finish site.key
          (process settings e site (s.start site)).1) := by
  let p := process settings e site (s.start site)
  let s' : State := { p.2 with active := p.2.active.erase (site.key.graph, site.key.node) }
  change (if (s'.remembered? site.key).isNone then
      (do modify (·.remember site.key (some p.1)); return p.1) else return p.1 :
        Eval (Value Local)) s' = _
  by_cases hm : (s'.remembered? site.key).isNone
  · rw [if_pos hm]
    exact congrArg (Prod.mk p.1) (if_pos hm).symm
  · rw [if_neg hm]
    exact congrArg (Prod.mk p.1) (if_neg hm).symm

section Level

variable {key : BoxKey}

theorem level_remembered {v : Value Local} (hm : s.remembered? key = some v) :
    level settings e key s = (v, s) := by
  simp only [level, Eval.bind_apply, Eval.get_apply, hm, Eval.pure_apply]

theorem level_absent (hm : s.remembered? key = none) (hs : s.site? key = none) :
    level settings e key s = (.zero .float1, s) := by
  simp only [level, Eval.bind_apply, Eval.get_apply, hm, hs, Eval.pure_apply]

theorem level_reentered (hm : s.remembered? key = none) (hs : s.site? key = some site)
    (ha : (key.graph, key.node) ∈ s.active) :
    level settings e key s =
      (.zero (s.boxType key), s.report key (.dependsOnItself site.node.id)) := by
  simp only [level, Eval.bind_apply, Eval.get_apply, hm, hs]
  exact congrFun (if_pos ha) s

theorem level_dispatched (hm : s.remembered? key = none) (hs : s.site? key = some site)
    (ha : (key.graph, key.node) ∉ s.active) :
    level settings e key s =
      ((process settings e site (s.start site)).1,
        (process settings e site (s.start site)).2.finish key
          (process settings e site (s.start site)).1) := by
  obtain rfl := State.key_of_site? hs
  simp only [level, Eval.bind_apply, Eval.get_apply, hm, hs]
  rw [← dispatch_eq]
  exact congrFun (if_neg ha) s

end Level

theorem operand?_eq (e : Evaluator) (key : BoxKey) (s : State) :
    operand? e key s =
      match s.producer? key with
      | some producer => (some (e producer s).1, (e producer s).2)
      | none => (none, s) := by
  simp only [operand?, Eval.bind_apply, Eval.get_apply]
  cases s.producer? key <;> rfl

/-! ### Function calls -/

theorem process_call (hk : site.node.kind = .materialFunction) :
    process settings e site s = call settings e site s := by
  simp only [process, hk]

theorem call_notLoaded {err : LoadError}
    (hl : settings.resolver.load s.loads.length site.node.callee = .error err) :
    call settings e site s =
      (.zero .float1, ((s.ask site.node.callee).record (.notLoaded err)).report site.key
        (.missingOrInvalidAsset site.node.callee)) := by
  have hload : load settings site.node.callee (s.use .functions) =
      (.error err, s.ask site.node.callee) := congrArg (·, s.ask site.node.callee) hl
  have hcallee : ((site.node.param? 0).bind Param.asset?).getD .nil = site.node.callee := rfl
  simp only [call, Eval.bind_apply, Eval.modify_apply, hcallee, hload]
  rfl

/-- A call once its function is loaded. -/
theorem call_loaded {function : MaterialFunction}
    (hl : settings.resolver.load s.loads.length site.node.callee = .ok function) :
    call settings e site s =
      (if s.isCalling site.node.callee then do
        report site.key (.recursiveCall site.node.callee)
        return .zero .float1
      else do
        let graph ← modifyGet (·.instantiate site function)
        match outputNode? (← get) site function graph with
        | some output => enter e site function graph output
        | none =>
          report site.key (.invalidOutput site.box)
          return .zero .float1 : Eval (Value Local)) (s.ask site.node.callee) := by
  have hload : load settings site.node.callee (s.use .functions) =
      (.ok function, s.ask site.node.callee) := congrArg (·, s.ask site.node.callee) hl
  have hcallee : ((site.node.param? 0).bind Param.asset?).getD .nil = site.node.callee := rfl
  simp only [call, Eval.bind_apply, Eval.modify_apply, hcallee, hload]
  rfl

theorem call_recursive {function : MaterialFunction}
    (hl : settings.resolver.load s.loads.length site.node.callee = .ok function)
    (hc : s.isCalling site.node.callee = true) :
    call settings e site s =
      (.zero .float1,
        (s.ask site.node.callee).report site.key (.recursiveCall site.node.callee)) := by
  rw [call_loaded hl, if_pos hc]
  rfl

/-- A call once its graph is made. -/
theorem call_made {function : MaterialFunction} {graph : Nat} {s' : State}
    (hl : settings.resolver.load s.loads.length site.node.callee = .ok function)
    (hc : s.isCalling site.node.callee = false)
    (hi : (s.ask site.node.callee).instantiate site function = (graph, s')) :
    call settings e site s =
      match outputNode? s' site function graph with
      | some output => enter e site function graph output s'
      | none => (.zero .float1, s'.report site.key (.invalidOutput site.box)) := by
  rw [call_loaded hl, if_neg (by simp [hc])]
  simp only [Eval.bind_apply, Eval.modifyGet_apply, Eval.get_apply, hi]
  cases outputNode? s' site function graph <;> rfl

theorem enter_eq (e : Evaluator) (site : Site) (function : MaterialFunction) (graph output : Nat)
    (s : State) :
    enter e site function graph output s =
      match s.producer? ⟨graph, output, 0⟩ with
      | some producer =>
        let p := e producer
          { s with context := s.context.enter ⟨site.key.graph, site.key.node, graph, function⟩ }
        (p.1, { p.2 with context := p.2.context.leave })
      | none => (.zero .float1, s) := by
  let inner : State :=
    { s with context := s.context.enter ⟨site.key.graph, site.key.node, graph, function⟩ }
  change (((operand? e ⟨graph, output, 0⟩ inner).1.getD (.zero .float1)),
    { (operand? e ⟨graph, output, 0⟩ inner).2 with
      context := (operand? e ⟨graph, output, 0⟩ inner).2.context.leave }) = _
  have hp : inner.producer? ⟨graph, output, 0⟩ = s.producer? ⟨graph, output, 0⟩ := rfl
  rw [operand?_eq, hp]
  cases s.producer? ⟨graph, output, 0⟩ <;> rfl

/-! ### Function inputs -/

theorem process_argument (hk : site.node.kind = .functionInput) :
    process settings e site s = argument settings e site s := by
  simp only [process, hk]

theorem argument_outside
    (hf : ∀ frame, s.context.currentFrame? = some frame → frame.graph ≠ site.key.graph) :
    argument settings e site s = (.zero .float1, s.report site.key .missingCall) := by
  simp only [argument, Eval.bind_apply, Eval.get_apply]
  cases h : s.context.currentFrame? with
  | none => rfl
  | some frame =>
    simp only [if_pos (hf frame h)]
    rfl

/-- A function input within its call. -/
theorem argument_inside {frame : CallFrame} (hf : s.context.currentFrame? = some frame)
    (hg : frame.graph = site.key.graph) :
    argument settings e site s =
      match frame.argument? site.node.id with
      | some box =>
        match s.producer? box with
        | some producer =>
          let p := e producer { s with context := s.context.inCaller }
          (p.1, { p.2 with context := p.2.context.back frame.graph })
        | none => run settings e site.key (Recipe.operandOrParam site 1 1) s
      | none => (.zero .float1, s.report site.key (.invalidInput site.node.id)) := by
  simp only [argument, Eval.bind_apply, Eval.get_apply, hf, hg, CallFrame.argument?]
  by_cases hi : frame.function.inputs.idxOf site.node.id < frame.function.inputs.length ∧
      frame.function.inputs.idxOf site.node.id < FunctionCall.inputCount
  · simp only [ne_eq, not_true_eq_false, if_false, hi, and_self, if_true, Eval.bind_apply,
      Eval.get_apply]
    cases s.producer? _ <;> rfl
  · simp only [ne_eq, not_true_eq_false, if_false, hi]
    rfl

/-! ### Recipes -/

theorem process_plain (hc : site.node.kind ≠ .materialFunction)
    (hi : site.node.kind ≠ .functionInput) :
    process settings e site s =
      run settings e site.key (site.recipe settings.domain s.stage) s := by
  unfold process
  generalize site.node.kind = kind at *
  cases kind <;> first | contradiction | rfl

theorem run_operand {α : Type} (key : BoxKey) (box : BoxId)
    (next : Option (Value Local) → Recipe Local α) :
    run settings e key (.operand box next) s =
      match s.producer? (key.sibling box) with
      | some producer => run settings e key (next (some (e producer s).1)) (e producer s).2
      | none => run settings e key (next none) s := by
  change run settings e key (next (operand? e (key.sibling box) s).1)
    (operand? e (key.sibling box) s).2 = _
  rw [operand?_eq]
  cases s.producer? (key.sibling box) <;> rfl

theorem run_effect {α : Type} {key : BoxKey} {r r' : Recipe Local α} {s' : State}
    (he : r.effect? settings key s = some (r', s')) :
    run settings e key r s = run settings e key r' s' := by
  cases r <;> simp only [Recipe.effect?, Option.some.injEq, Prod.mk.injEq, reduceCtorEq] at he <;>
    obtain ⟨rfl, rfl⟩ := he
  case comment text next => cases h : settings.comments <;> simp only [run, h] <;> rfl
  all_goals rfl

end Engine

/-! ### Derivations and unrollings -/

/-- Carries out a task with a given evaluator of output boxes. -/
def Task.eval (settings : Settings) (e : Evaluator) : Task → Eval (Value Local)
  | box key => e key
  | node site => Engine.process settings e site
  | recipe key r => Engine.run settings e key r

open Engine in
/-- A derivation is found by every sufficiently deep unrolling, whatever stands at its end. -/
theorem Runs.eval_unroll {settings : Settings} {t : Task} {s s' : State} {v : Value Local}
    (h : Runs settings t s v s') :
    ∃ n, ∀ base, ∀ depth ≥ n, t.eval settings (unroll settings base depth) s = (v, s') := by
  induction h with
  | leaf h =>
    cases h with
    | remembered hm =>
      refine ⟨1, fun base depth hd => ?_⟩
      obtain ⟨depth, rfl⟩ := Nat.exists_eq_add_of_le' hd
      exact level_remembered hm
    | absent hm hs =>
      refine ⟨1, fun base depth hd => ?_⟩
      obtain ⟨depth, rfl⟩ := Nat.exists_eq_add_of_le' hd
      exact level_absent hm hs
    | reentered hm hs ha =>
      refine ⟨1, fun base depth hd => ?_⟩
      obtain ⟨depth, rfl⟩ := Nat.exists_eq_add_of_le' hd
      exact level_reentered hm hs ha
    | notLoaded hk hl =>
      exact ⟨0, fun base depth _ => by rw [Task.eval, process_call hk, call_notLoaded hl]⟩
    | recursive hk hl hc =>
      exact ⟨0, fun base depth _ => by rw [Task.eval, process_call hk, call_recursive hl hc]⟩
    | unlisted hk hl hc hi ho =>
      exact ⟨0, fun base depth _ => by rw [Task.eval, process_call hk, call_made hl hc hi, ho]⟩
    | unfed hk hl hc hi ho hp =>
      refine ⟨0, fun base depth _ => ?_⟩
      simp only [Task.eval, process_call hk, call_made hl hc hi, ho, enter_eq, hp]
    | outside hk hf =>
      exact ⟨0, fun base depth _ => by rw [Task.eval, process_argument hk, argument_outside hf]⟩
    | undeclared hk hf hg ha =>
      refine ⟨0, fun base depth _ => ?_⟩
      simp only [Task.eval, process_argument hk, argument_inside hf hg, ha]
    | done => exact ⟨0, fun _ _ _ => rfl⟩
  | @unary _ s v s' _ h _ ih =>
    obtain ⟨n, ih⟩ := ih
    cases h with
    | @dispatched key _ site _ s' hm hs ha =>
      refine ⟨n + 1, fun base depth hd => ?_⟩
      obtain ⟨depth, rfl⟩ := Nat.exists_eq_add_of_le' (show 1 ≤ depth by omega)
      have hp : process settings (unroll settings base depth) site (s.start site) = (v, s') :=
        ih base depth (by omega)
      rw [Task.eval, unroll, level_dispatched hm hs ha, hp]
    | plain hc hi =>
      refine ⟨n, fun base depth hd => ?_⟩
      rw [Task.eval, process_plain hc hi]
      exact ih base depth hd
    | @called site _ function graph s' output producer _ s'' hk hl hc hi ho hp =>
      refine ⟨n, fun base depth hd => ?_⟩
      have he : unroll settings base depth producer
          { s' with context := s'.context.enter ⟨site.key.graph, site.key.node, graph, function⟩ } =
          (v, s'') := ih base depth hd
      simp only [Task.eval, process_call hk, call_made hl hc hi, ho, enter_eq, hp, he]
    | @passed site _ frame box producer _ s' hk hf hg ha hp =>
      refine ⟨n, fun base depth hd => ?_⟩
      have he : unroll settings base depth producer { s with context := s.context.inCaller } =
          (v, s') := ih base depth hd
      simp only [Task.eval, process_argument hk, argument_inside hf hg, ha, hp, he]
    | defaulted hk hf hg ha hp =>
      refine ⟨n, fun base depth hd => ?_⟩
      simp only [Task.eval, process_argument hk, argument_inside hf hg, ha, hp]
      exact ih base depth hd
    | unconnected hp =>
      refine ⟨n, fun base depth hd => ?_⟩
      simp only [Task.eval, run_operand, hp]
      exact ih base depth hd
    | effect he =>
      refine ⟨n, fun base depth hd => ?_⟩
      rw [Task.eval, run_effect he]
      exact ih base depth hd
  | @binary _ s v s' _ _ h _ _ ih ihn =>
    obtain ⟨n, ih⟩ := ih
    obtain ⟨m, ihn⟩ := ihn
    cases h with
    | @connected key _ box next producer a s₁ _ _ hp =>
      refine ⟨max n m, fun base depth hd => ?_⟩
      have he : unroll settings base depth producer s = (a, s₁) := ih base depth (by omega)
      simp only [Task.eval, run_operand, hp, he]
      exact ihn base depth (by omega)

end ShaderGraph
