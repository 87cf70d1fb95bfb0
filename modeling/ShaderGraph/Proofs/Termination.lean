import ShaderGraph.Proofs.Stages

/-! Evaluation ends, for every graph and all libraries. The evaluator is unrolled to some depth,
with anything at all in the place of what would come deeper. As soon as the depth exceeds the number
of nodes in the tree of calls, the end is never reached: values, states and materials do not depend
on what stands there. The tree is made from the material graph and the functions that can be
loaded. -/

namespace ShaderGraph

theorem Branch.nodup_called {functions : List MaterialFunction} {g : Graph} {depth : Nat}
    {b : Branch} (h : b ∈ within functions g depth) : b.called.Nodup := by
  induction depth generalizing b with
  | zero =>
    obtain rfl : b = root g := by simpa [within] using h
    exact List.nodup_nil
  | succ depth ih =>
    rcases List.mem_cons.mp h with rfl | h
    · exact List.nodup_nil
    · obtain ⟨b', hb', hc⟩ := List.mem_flatMap.mp h
      obtain ⟨n, node, f, -, -, hnew, -, hid, rfl⟩ := mem_calls.mp hc
      exact List.nodup_cons.mpr ⟨by rwa [hid], ih hb'⟩

/-! ### Evaluators that follow the rules agree -/

namespace Engine

variable {settings : Settings} {g : Graph} {active : List (Nat × Nat)} {e e' : Evaluator}
  {s : State} {key : BoxKey}

theorem Follows.agree (he : Follows settings g active e) (he' : Follows settings g active e')
    (hs : s.Sound settings g) (hl : (Task.box key).Located s) (ha : s.active = active) :
    e key s = e' key s := by
  obtain ⟨hv, hs'⟩ := (he key s hs hl ha).unique (he' key s hs hl ha)
  exact Prod.ext hv hs'

theorem Follows.run_agree (he : Follows settings g active e) (he' : Follows settings g active e')
    {r : Recipe Local (Value Local)} (hs : s.Sound settings g)
    (hl : (Task.recipe key r).Located s) (ha : s.active = active) :
    run settings e key r s = run settings e' key r s := by
  obtain ⟨hv, hs'⟩ := (he.recipe key r s hs hl ha).unique (he'.recipe key r s hs hl ha)
  exact Prod.ext hv hs'

theorem Follows.input_agree (he : Follows settings g active e) (he' : Follows settings g active e')
    (hs : s.Sound settings g) (hl : (Task.box key).Located s) (ha : s.active = active) :
    input e key s = input e' key s := by
  have hoperand : operand? e key s = operand? e' key s := by
    rw [operand?_eq, operand?_eq]
    cases hp : s.producer? key with
    | none => rfl
    | some producer =>
      have hl' : (Task.box producer).Located s :=
        hl.trans (congrArg some (State.graph_of_producer? hp).symm)
      dsimp only
      rw [he.agree he' hs hl' ha]
  rw [input_apply, input_apply, hoperand]

end Engine

namespace Generator

variable {settings : Settings} {g : Graph} {e e' : Evaluator} {output : Nat} {s : State}

theorem parameters_agree (he : Engine.Follows settings g [] e)
    (he' : Engine.Follows settings g [] e') (hs : s.Idle settings g) (stage : Stage) :
    parameters e output stage s = parameters e' output stage s := by
  refine Eval.mapM_congr (P := State.Idle settings g) _ (fun p _ s hs => ⟨?_, ?_⟩) s hs
  · rw [parameter_eq settings e, parameter_eq settings e',
      he.run_agree he' hs.sound (p.located hs output) hs.active]
  · exact hs.runs (p.located hs output) (parameter_runs he hs output p)

theorem interpolants_agree (he : Engine.Follows settings g [] e)
    (he' : Engine.Follows settings g [] e') (hs : s.Idle settings g) :
    interpolants e s.slots s = interpolants e' s.slots s := by
  refine Eval.mapM_congr (P := fun s' => s'.Idle settings g ∧ s.slots <+: s'.slots) _ ?_ s
    ⟨hs, List.prefix_refl _⟩
  rintro ⟨slot, i⟩ hmem s' ⟨hs', hp⟩
  have hslot : slot ∈ s'.slots := hp.subset (List.fst_mem_of_mem_zipIdx hmem)
  obtain ⟨s'', hr, hend⟩ := interpolant_runs he hs' hslot i
  obtain ⟨hidle, hg⟩ := interpolant_idle hs' hslot hr
  obtain ⟨hvalid, hcur, hinput⟩ := hs'.sound.slots slot hslot
  refine ⟨?_, ?_⟩
  · dsimp only
    rw [interpolant_eq settings e hinput, interpolant_eq settings e' hinput,
      he.run_agree he' (hs'.sound.withContext hvalid) ⟨hcur, slot.recipe_callFree⟩ hs'.active]
  · dsimp only
    rw [hend]
    exact ⟨hidle, hp.trans hg.slots⟩

theorem stages_agree (he : Engine.Follows settings g [] e) (he' : Engine.Follows settings g [] e')
    (hs : s.Idle settings g) (output : Nat) : stages e output s = stages e' output s := by
  have hk := keeps_true settings g output
  have hpixel : pixelStage e output s = pixelStage e' output s := by
    rw [pixelStage_eq, pixelStage_eq, parameters_agree he he' (hs.beginStage .pixel)]
  obtain ⟨s', outputs, heq, hidle, -⟩ := hk.pixelStage he hs trivial
  have hvertex : vertexStage e output s'.takeWriter.2 = vertexStage e' output s'.takeWriter.2 := by
    have hs' := hidle.takeWriter.beginStage .vertex
    obtain ⟨hmid, -⟩ := hk.parameters he hs' trivial .vertex
    rw [vertexStage_eq, vertexStage_eq, ← parameters_agree he he' hs']
    dsimp only
    rw [interpolants_agree he he' hmid]
  rw [stages_eq, stages_eq, ← hpixel, heq]
  dsimp only
  rw [hvertex]

end Generator

/-! ### The bound -/

/-- The nodes under way are all different, and there are few enough of them. -/
theorem State.Sound.underway {settings : Settings} {g : Graph} {s : State}
    (h : s.Sound settings g) {e : Event} (he : e ∈ s.trace) :
    e.underway.Nodup ∧ e.underway.length ≤ (settings.resolver.places g).card := by
  have hsound := h.trace e he
  cases e with
  | dispatched key kind id context active =>
    obtain ⟨-, -, -, ha⟩ := hsound
    exact ⟨ha.nodup, ha.length_le h.tree⟩
  | _ => exact ⟨List.nodup_nil, Nat.zero_le _⟩

/-- The graphs of an evaluation are branches of the tree of calls. -/
theorem CallTree.exists_branch {settings : Settings} {g : Graph} {table : List Instance} {i : Nat}
    {inst : Instance} (ht : CallTree settings g table) (hi : table[i]? = some inst) :
    ∃ c, Lineage table i c ∧
      ⟨sites table c, called table c, inst.graph⟩ ∈ settings.resolver.branches g := by
  obtain ⟨c, hc⟩ := ht.exists_lineage (List.getElem?_eq_some_iff.mp hi).1
  exact ⟨c, hc, Branch.within_subset (ht.length_called_le hc) (ht.branch_mem_within hc hi)⟩

/-- Every evaluation ends. After any requests, the evaluator unrolled beyond the number of nodes in
the tree of calls gives the values, states and materials of the evaluator itself, whatever stands at
the end of the unrolling. Dispatched nodes are nested no deeper than that number and all different,
each graph made is a branch of the tree, and no function is called twice on the way to a branch. -/
theorem evaluation_terminates (g : Graph) (domain : Domain) (resolver : Resolver) (config : Config)
    (requests : List Request) (base : Evaluator) (extra : Nat) :
    let gen := ((Generator.new g domain resolver).withConfig config).after requests
    let last := gen.generate.2.state
    let limit := (resolver.places g).card
    let unrolled := Engine.unroll gen.settings base (limit + 1 + extra)
    (∀ node box, unrolled ⟨0, node, box⟩ gen.state = gen.evaluator ⟨0, node, box⟩ gen.state) ∧
    (∀ node box, Engine.input unrolled ⟨0, node, box⟩ gen.state =
      Engine.input gen.evaluator ⟨0, node, box⟩ gen.state) ∧
    (∀ output, Generator.stages unrolled output gen.state =
      Generator.stages gen.evaluator output gen.state) ∧
    (∀ e ∈ last.trace, e.underway.Nodup ∧ e.underway.length ≤ limit) ∧
    (∀ i inst, last.instances[i]? = some inst → ∃ c, CallTree.Lineage last.instances i c ∧
      ⟨CallTree.sites last.instances c, CallTree.called last.instances c, inst.graph⟩ ∈
        resolver.branches g) ∧
    ∀ b ∈ resolver.branches g, b.called.Nodup ∧ b.sites.length ≤ resolver.functionCount := by
  intro gen last limit unrolled
  obtain ⟨hresolver, hmaterial, hidle⟩ : gen.settings.resolver = resolver ∧ gen.material = g ∧
      gen.state.Idle gen.settings gen.material :=
    Generator.idle_after g domain resolver config requests
  have hlast : last.Idle gen.settings gen.material := Generator.generate_idle hidle
  have he := gen.follows_evaluator
  rw [hmaterial] at hidle hlast he
  have hdeep :
      (gen.settings.resolver.places g).card < limit + 1 + extra + ([] : List Nat).length := by
    rw [hresolver]
    simp only [List.length_nil]
    omega
  have hu : Engine.Follows gen.settings g [] unrolled := Engine.follows_unroll base _ hdeep
  refine ⟨fun node box => ?_, fun node box => ?_, fun output => ?_, fun e he => ?_,
    fun i inst hi => ?_, fun b hb => ?_⟩
  · exact hu.agree he hidle.sound hidle.current? hidle.active
  · exact hu.input_agree he hidle.sound hidle.current? hidle.active
  · exact Generator.stages_agree hu he hidle output
  · have hfew := hlast.sound.underway he
    rwa [hresolver] at hfew
  · obtain ⟨c, hc, hb⟩ := hlast.sound.tree.exists_branch hi
    rw [hresolver] at hb
    exact ⟨c, hc, hb⟩
  · exact ⟨Branch.nodup_called hb, (Resolver.branch_small hb).1⟩

/-- A function that returns what another one returns. -/
def forwarding (id callee : AssetId) : MaterialFunction where
  id := id
  graph := ⟨[.ofKind 1 .materialFunction [.asset callee],
    (Node.ofKind 2 .functionOutput []).fed 0 ⟨0, 16⟩]⟩
  inputs := []
  outputs := [2]

/-- A call of one of two functions that call each other. -/
def forwarded : Graph :=
  ⟨[(Node.ofKind 1 .materialOutput []).fed 0 ⟨1, 16⟩,
    .ofKind 2 .materialFunction [.asset ⟨1⟩]]⟩

theorem mutual_recursion_terminates :
    let resolver : Resolver := ⟨[⟨[.loaded (forwarding ⟨1⟩ ⟨2⟩), .loaded (forwarding ⟨2⟩ ⟨1⟩)]⟩]⟩
    let gen := ((Generator.new forwarded .surface resolver).withConfig {}).after []
    (resolver.places forwarded).card = 6 ∧
      ∃ e ∈ gen.generate.2.state.trace, e.underway.length = 3 ∧ e.underway.Nodup := by
  intro resolver
  have hall := evaluation_terminates forwarded .surface resolver {} []
    (fun _ => return .zero .float1) 0
  have hdeep : (((Generator.new forwarded .surface resolver).withConfig {}).after
      []).generate.2.state.trace.any (·.underway.length == 3) = true := by decide +kernel
  have hcard : (resolver.places forwarded).card = 6 := by decide +kernel
  dsimp only at hall ⊢
  generalize (((Generator.new forwarded .surface resolver).withConfig {}).after
    []).generate.2.state = last at hall hdeep ⊢
  obtain ⟨e, he, hlen⟩ := List.any_eq_true.mp hdeep
  exact ⟨hcard, e, he, by simpa using hlen, (hall.2.2.2.1 e he).1⟩

end ShaderGraph
