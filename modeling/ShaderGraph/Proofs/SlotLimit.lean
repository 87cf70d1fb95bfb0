import ShaderGraph.Proofs.Outline

/-! The limit on interpolants only cuts off the table of slots. Which slots are claimed, and in
which order, belongs to the outline of an evaluation, and a higher limit only lets more of them be
handed out. As long as no claim is turned down for want of slots, the limit makes no difference at
all. -/

namespace ShaderGraph

/-! ### Claims that are turned down -/

/-- A claim was turned down because all slots were taken. -/
def State.Overfull (s : State) : Prop := ∃ d ∈ s.diagnostics, ∃ n, d.cause = .capacityExceeded n

theorem State.Overfull.mono {s s' : State} (h : s.Overfull)
    (hd : s.diagnostics <+: s'.diagnostics) : s'.Overfull := by
  obtain ⟨d, hmem, hcause⟩ := h
  exact ⟨d, hd.subset hmem, hcause⟩

/-- The recipe reports at once when all slots are taken. -/
inductive Recipe.Frank {α : Type} : Recipe Local α → Prop
  | claimless {r} (h : r.Claimless) : Frank r
  | claim {input next}
      (h : ∀ limit, ∃ n rest, next (.full limit) = .report (.capacityExceeded n) rest)
      (hc : ∀ c, (next c).Claimless) : Frank (.claim input next)

theorem Recipe.Frank.answer {box : BoxId} {next : Option (Value Local) → Recipe Local (Value Local)}
    (h : (Recipe.operand box next).Frank) (v : Option (Value Local)) : (next v).Frank := by
  cases h with
  | claimless h => exact .claimless (h.answer v)

theorem Site.recipe_frank (site : Site) (domain : Domain) (stage : Stage) :
    (site.recipe domain stage : Recipe Local _).Frank := by
  by_cases h : site.node.kind = .interpolateVsToPs ∧ stage = .pixel
  · obtain ⟨hk, rfl⟩ := h
    unfold Site.recipe
    rw [hk]
    refine .claim (fun limit => ⟨_, _, rfl⟩) fun c => ?_
    cases c with
    | granted => exact .use (.done _)
    | full => exact .report (.done _)
    | unsupported => exact .report (.done _)
  · refine .claimless (Site.recipe_claimless (fun hk => ?_) domain)
    cases stage with
    | vertex => rfl
    | pixel => exact absurd ⟨hk, rfl⟩ h

def Task.Frank : Task → Prop
  | recipe _ r => r.Frank
  | _ => True

section

variable {settings : Settings} {limit : Nat} {s s' : State} {key : BoxKey}

/-- Below the lower limit both limits have the same effect. -/
theorem State.claim_withLimit (hle : settings.slotLimit ≤ limit)
    (hs : s.slots.length < settings.slotLimit) (key input : BoxKey) :
    s.claim (settings.withLimit limit) key input = s.claim settings key input := by
  have hfull : ¬settings.slotLimit ≤ s.slots.length := by omega
  have hfull' : ¬(settings.withLimit limit).slotLimit ≤ s.slots.length := by
    change ¬limit ≤ _
    omega
  rw [State.claim, State.claim, if_neg hfull, if_neg hfull']
  rfl

/-- A request is carried out alike, unless it is a claim that is turned down. -/
theorem Recipe.Frank.effect? {r r' : Recipe Local (Value Local)} (hr : r.Frank)
    (hle : settings.slotLimit ≤ limit) (he : r.effect? settings key s = some (r', s')) :
    r'.Frank ∧ (r.effect? (settings.withLimit limit) key s = some (r', s') ∨
      ∃ n rest, r' = .report (.capacityExceeded n) rest) := by
  cases hr with
  | claimless hr =>
    refine ⟨.claimless (hr.effect he).1, .inl ?_⟩
    cases hr <;> exact he
  | claim h hc =>
    by_cases hs : s.slots.length < settings.slotLimit
    · cases he
      refine ⟨.claimless (hc _), .inl ?_⟩
      rw [Recipe.effect?, State.claim_withLimit hle hs]
    · rw [Recipe.effect?, State.claim, if_pos (by omega)] at he
      cases he
      exact ⟨.claimless (hc _), .inr (h _)⟩

theorem Runs.overfull_of_report {n : UInt64} {rest : Recipe Local (Value Local)} {v : Value Local}
    (h : Runs settings (.recipe key (.report (.capacityExceeded n) rest)) s v s') :
    s'.Overfull := by
  cases h with
  | leaf h => cases h
  | binary h => cases h
  | unary h hn =>
    cases h with
    | effect he =>
      cases he
      have hreport : (s.report key (.capacityExceeded n)).Overfull :=
        ⟨_, s.diagnose_mem_report key _, n, rfl⟩
      exact hreport.mono hn.grows.diagnostics

/-- Only claims depend on the limit. -/
theorem Evaluation.Needs.withLimit {x : Evaluation} (h : x.Needs settings []) (limit : Nat) :
    x.Needs (settings.withLimit limit) [] := by
  cases h with
  | remembered hm => exact .remembered hm
  | absent hm hs => exact .absent hm hs
  | reentered hm hs ha => exact .reentered hm hs ha
  | notLoaded hk hl => exact .notLoaded hk hl
  | recursive hk hl hc => exact .recursive hk hl hc
  | unlisted hk hl hc hi ho => exact .unlisted hk hl hc hi ho
  | unfed hk hl hc hi ho hp => exact .unfed hk hl hc hi ho hp
  | outside hk hf => exact .outside hk hf
  | undeclared hk hf hg ha => exact .undeclared hk hf hg ha
  | done => exact .done

/-- A run in which no claim is turned down for want of slots is also a run with a higher limit. -/
theorem Runs.withLimit {t : Task} {v : Value Local} (hle : settings.slotLimit ≤ limit)
    (h : Runs settings t s v s') (ht : t.Frank) (hend : ¬s'.Overfull) :
    Runs (settings.withLimit limit) t s v s' := by
  induction h with
  | leaf h => exact .leaf (h.withLimit limit)
  | @unary _ _ v _ _ h hn ih =>
    cases h with
    | @dispatched key _ _ _ s' hm hs ha =>
      obtain ⟨memory, hfinish⟩ := s'.finish_eq key v
      rw [hfinish] at hend
      exact .unary (.dispatched hm hs ha) (ih trivial hend)
    | plain hc hi => exact .unary (.plain hc hi) (ih (Site.recipe_frank _ _ _) hend)
    | called hk hl hc hi ho hp => exact .unary (.called hk hl hc hi ho hp) (ih trivial hend)
    | passed hk hf hg ha hp => exact .unary (.passed hk hf hg ha hp) (ih trivial hend)
    | defaulted hk hf hg ha hp =>
      refine .unary (.defaulted hk hf hg ha hp) (ih (.claimless ?_) hend)
      exact (Recipe.silent_operandOrParam _ _ _).claimless
    | unconnected hp => exact .unary (.unconnected hp) (ih (Recipe.Frank.answer ht _) hend)
    | effect he =>
      obtain ⟨hr, he' | ⟨n, rest, rfl⟩⟩ := Recipe.Frank.effect? ht hle he
      · exact .unary (.effect he') (ih hr hend)
      · exact absurd hn.overfull_of_report hend
  | binary h hy hn ih ihn =>
    cases h with
    | connected hp =>
      have hmid := fun hs => hend (State.Overfull.mono hs hn.grows.diagnostics)
      exact .binary (.connected hp) (ih trivial hmid) (ihn (Recipe.Frank.answer ht _) hend)

end

/-! ### Stages -/

namespace Eval

variable {ι α : Type} {A B C : State → Prop}

/-- Evaluations that agree one by one unless they end with `C`, which then stays, agree in sequence
unless the last one ends with it. -/
theorem mapM_agree {f f' : ι → Eval α} (hC : ∀ s s', s.Grows s' → C s → C s') (xs : List ι)
    (h : ∀ x ∈ xs, ∀ s, A s → A (f x s).2 ∧ s.Grows (f x s).2)
    (hf : ∀ x ∈ xs, ∀ s, A s → B s → ¬C (f x s).2 → f' x s = f x s ∧ B (f x s).2)
    (s : State) (hA : A s) (hB : B s) (hend : ¬C (xs.mapM f s).2) :
    xs.mapM f' s = xs.mapM f s ∧ B (xs.mapM f s).2 := by
  induction xs generalizing s with
  | nil => exact ⟨rfl, hB⟩
  | cons x xs ih =>
    have htail := fun y hy => h y (List.mem_cons_of_mem x hy)
    obtain ⟨hA', -⟩ := h x List.mem_cons_self s hA
    rw [mapM_cons_apply] at hend ⊢
    have hgrows := (mapM_spec (Q := fun _ _ _ => True) (fun _ _ _ _ _ h => h) xs
      (fun y hy s hs => ⟨(htail y hy s hs).1, (htail y hy s hs).2, trivial⟩) _ hA').2.1
    obtain ⟨heq, hB'⟩ := hf x List.mem_cons_self s hA hB fun hx => hend (hC _ _ hgrows hx)
    obtain ⟨hrest, hB''⟩ := ih htail (fun y hy => hf y (List.mem_cons_of_mem x hy)) _ hA' hB' hend
    rw [mapM_cons_apply, heq, hrest]
    exact ⟨rfl, hB''⟩

end Eval

namespace Generator

variable {settings : Settings} {limit : Nat} {g : Graph} {e e' : Evaluator} {s : State}

theorem parameter_withLimit (hle : settings.slotLimit ≤ limit) (he : Engine.Follows settings g [] e)
    (he' : Engine.Follows (settings.withLimit limit) g [] e') (h : s.Idle settings g)
    (h' : s.Idle (settings.withLimit limit) g) (output : Nat) (p : Parameter)
    (hend : ¬(parameter e output p s).2.Overfull) :
    parameter e' output p s = parameter e output p s ∧
      (parameter e output p s).2.Idle (settings.withLimit limit) g := by
  have hrun := (parameter_runs he h output p).withLimit hle
    (.claimless (Recipe.silent_feed _ _ _).claimless) hend
  obtain ⟨hvalue, hstate⟩ := (parameter_runs he' h' output p).unique hrun
  refine ⟨Prod.ext ?_ hstate, h'.runs (p.located h' output) hrun⟩
  exact congrArg (StageOutput.mk p.target) hvalue

theorem interpolant_withLimit (hle : settings.slotLimit ≤ limit)
    (he : Engine.Follows settings g [] e)
    (he' : Engine.Follows (settings.withLimit limit) g [] e') (h : s.Idle settings g)
    (h' : s.Idle (settings.withLimit limit) g) {slot : Slot} (hslot : slot ∈ s.slots) (i : Nat)
    (hend : ¬(interpolant e slot i s).2.Overfull) :
    interpolant e' slot i s = interpolant e slot i s ∧
      (interpolant e slot i s).2.Idle (settings.withLimit limit) g := by
  obtain ⟨s₁, hrun, hs₁⟩ := interpolant_runs he h hslot i
  obtain ⟨u₁, hrun', hu₁⟩ := interpolant_runs he' h' hslot i
  rw [hs₁] at hend
  have hhigh := hrun.withLimit hle (.claimless (Recipe.silent_feed _ _ _).claimless) hend
  obtain ⟨hvalue, rfl⟩ := hrun'.unique hhigh
  refine ⟨Prod.ext ?_ (hu₁.trans hs₁.symm), ?_⟩
  · exact congrArg (StageOutput.mk _) hvalue
  · rw [hs₁]
    exact (interpolant_idle h' hslot hhigh).1

theorem parameters_withLimit (hle : settings.slotLimit ≤ limit)
    (he : Engine.Follows settings g [] e)
    (he' : Engine.Follows (settings.withLimit limit) g [] e') (h : s.Idle settings g)
    (h' : s.Idle (settings.withLimit limit) g) (output : Nat) (stage : Stage)
    (hend : ¬(parameters e output stage s).2.Overfull) :
    parameters e' output stage s = parameters e output stage s ∧
      (parameters e output stage s).2.Idle (settings.withLimit limit) g := by
  refine Eval.mapM_agree (A := fun s => s.Idle settings g)
    (B := fun s => s.Idle (settings.withLimit limit) g) (C := State.Overfull)
    (fun _ _ hg hs => hs.mono hg.diagnostics) _ (fun p _ s hs => ?_)
    (fun p _ s hs hs' hend => parameter_withLimit hle he he' hs hs' output p hend) s h h' hend
  have hrun := parameter_runs he hs output p
  exact ⟨hs.runs (p.located hs output) hrun, hrun.grows⟩

theorem interpolants_withLimit (hle : settings.slotLimit ≤ limit)
    (he : Engine.Follows settings g [] e)
    (he' : Engine.Follows (settings.withLimit limit) g [] e') (h : s.Idle settings g)
    (h' : s.Idle (settings.withLimit limit) g)
    (hend : ¬(interpolants e s.slots s).2.Overfull) :
    interpolants e' s.slots s = interpolants e s.slots s := by
  -- the slots stay where they are while interpolants are evaluated
  refine (Eval.mapM_agree (A := fun s' => s'.Idle settings g ∧ s.slots <+: s'.slots)
    (B := fun s => s.Idle (settings.withLimit limit) g) (C := State.Overfull)
    (fun _ _ hg hs => hs.mono hg.diagnostics) _ ?_ ?_ s ⟨h, List.prefix_refl _⟩ h' hend).1
  · rintro ⟨slot, i⟩ hmem s' ⟨hs', hp⟩
    have hslot := hp.subset (List.fst_mem_of_mem_zipIdx hmem)
    obtain ⟨s'', hrun, hs''⟩ := interpolant_runs he hs' hslot i
    obtain ⟨hidle, hgrows⟩ := interpolant_idle hs' hslot hrun
    dsimp only
    rw [hs'']
    exact ⟨⟨hidle, hp.trans hgrows.slots⟩, hgrows⟩
  · rintro ⟨slot, i⟩ hmem s' ⟨hs', hp⟩ hs'' hend
    have hslot := hp.subset (List.fst_mem_of_mem_zipIdx hmem)
    exact interpolant_withLimit hle he he' hs' hs'' hslot i hend

/-- A material for which no claim is turned down for want of slots stays the same with a higher
limit. -/
theorem stages_withLimit (hle : settings.slotLimit ≤ limit) (he : Engine.Follows settings g [] e)
    (he' : Engine.Follows (settings.withLimit limit) g [] e') (h : s.Idle settings g)
    (h' : s.Idle (settings.withLimit limit) g) (output : Nat)
    (hend : ¬(stages e output s).2.Overfull) :
    stages e' output s = stages e output s := by
  have hkeeps := keeps_true settings g output
  have hpixel := hkeeps.parameters he (h.beginStage .pixel) trivial .pixel
  have hpixel' := parameters_withLimit hle he he' (h.beginStage .pixel) (h'.beginStage .pixel)
    output .pixel
  rw [stages_eq, pixelStage_eq] at hend ⊢
  rw [stages_eq, pixelStage_eq]
  dsimp only at hend ⊢
  rw [vertexStage_eq] at hend ⊢
  rw [vertexStage_eq]
  dsimp only at hend ⊢
  generalize parameters e output .pixel (s.beginStage .pixel) = p at *
  obtain ⟨hidle, -, -, -⟩ := hpixel
  have hvertex := hkeeps.parameters he (hidle.takeWriter.beginStage .vertex) trivial .vertex
  have hvertex' := fun h => parameters_withLimit hle he he' (hidle.takeWriter.beginStage .vertex) h
    output .vertex
  generalize parameters e output .vertex (p.2.takeWriter.2.beginStage .vertex) = q at *
  obtain ⟨hidle₁, -, hgrows, -⟩ := hvertex
  have hinter := hkeeps.interpolants he hidle₁ trivial
  have hinter' := fun h => interpolants_withLimit hle he he' hidle₁ h
  generalize interpolants e q.2.slots q.2 = r at *
  obtain ⟨-, -, hgrows', -⟩ := hinter
  -- what is reported stays, so no claim was turned down at any time
  have hend₂ : ¬r.2.Overfull := hend
  have hend₁ : ¬q.2.Overfull := fun hq => hend₂ (hq.mono hgrows'.diagnostics)
  have hend₀ : ¬p.2.Overfull := fun hp => hend₁ (hp.mono hgrows.diagnostics)
  obtain ⟨hp, hidle'⟩ := hpixel' hend₀
  rw [hp]
  obtain ⟨hq, hidle₁'⟩ := hvertex' (hidle'.takeWriter.beginStage .vertex) hend₁
  rw [hq, hinter' hidle₁' hend₂]

/-! ### All limits -/

/-- The generator with another number of slots. -/
def withLimit (gen : Generator) (limit : Nat) : Generator :=
  { gen with settings := gen.settings.withLimit limit }

variable {gen : Generator}

theorem idle_of_state (h : gen.state = .ofGraph gen.material) (settings : Settings) :
    gen.state.Idle settings gen.material := by
  rw [h]
  exact ⟨State.sound_ofGraph settings gen.material, rfl, rfl⟩

/-- Whatever the limit, the slots are the first ones of all that are claimed. -/
theorem slots_withLimit (h : gen.state = .ofGraph gen.material) (limit : Nat) :
    ∃ claimed : List Slot, gen.generate.2.state.slots = claimed.take gen.settings.room ∧
      (gen.withLimit limit).generate.2.state.slots =
        claimed.take (gen.withLimit limit).settings.room := by
  have hnil (n : Nat) : ([] : List Slot) = [].take n := List.take_nil.symm
  have h' : (gen.withLimit limit).state = .ofGraph (gen.withLimit limit).material := h
  cases ho : gen.material.findKind? .materialOutput with
  | none =>
    have ho' : (gen.withLimit limit).material.findKind? .materialOutput = none := ho
    rw [generate_none ho, generate_none ho', h, h']
    exact ⟨[], hnil _, hnil _⟩
  | some output =>
    have ho' : (gen.withLimit limit).material.findKind? .materialOutput = some output := ho
    have hbegun : (gen.state.beginStage .pixel).Alike (outline gen.settings limit 0 [])
        ((gen.withLimit limit).state.beginStage .pixel) := by
      change (gen.state.beginStage .pixel).Alike _ (gen.state.beginStage .pixel)
      rw [h]
      exact ⟨rfl, rfl, rfl, rfl, rfl, .nil, rfl, ⟨[], hnil _, hnil _⟩, trivial⟩
    obtain ⟨-, claimed, hlow, hhigh⟩ := stages_outline gen.follows_evaluator
      (gen.withLimit limit).follows_evaluator (idle_of_state h _) (idle_of_state h' _) hbegun output
    rw [generate_eq ho, generate_eq ho']
    dsimp only
    rw [hlow, hhigh]
    exact ⟨claimed, rfl, rfl⟩

theorem generate_withLimit (h : gen.state = .ofGraph gen.material) {limit : Nat}
    (hle : gen.settings.slotLimit ≤ limit)
    (hfree : ∀ m, gen.generate.1 = .ok m →
      ∀ d ∈ m.diagnostics, ∀ n, d.cause ≠ .capacityExceeded n) :
    (gen.withLimit limit).generate.1 = gen.generate.1 := by
  cases ho : gen.material.findKind? .materialOutput with
  | none =>
    have ho' : (gen.withLimit limit).material.findKind? .materialOutput = none := ho
    rw [generate_none ho, generate_none ho']
  | some output =>
    have ho' : (gen.withLimit limit).material.findKind? .materialOutput = some output := ho
    rw [generate_eq ho] at hfree ⊢
    rw [generate_eq ho']
    have hend : ¬(stages gen.evaluator output gen.state).2.Overfull := by
      rintro ⟨d, hd, n, hn⟩
      rw [stages_eq] at hd hfree
      exact hfree _ rfl d hd n hn
    have hsame := stages_withLimit hle gen.follows_evaluator
      (gen.withLimit limit).follows_evaluator (idle_of_state h _) (idle_of_state h _) output hend
    exact congrArg (fun m : Material × State => Except.ok m.1) hsame

end Generator

/-- The limit on interpolants only cuts off the table of slots: the slots for a lower limit are the
first ones of those for a higher limit. If with the lower limit no claim is turned down for want of
slots, the material is the same for both. -/
theorem slots_cut_off (g : Graph) (domain : Domain) (resolver : Resolver) (comments : Bool)
    (k k' : Nat) (hk : k ≤ k') :
    let gen := fun limit => (Generator.new g domain resolver).withConfig ⟨limit, comments⟩
    let slots := fun limit => (gen limit).generate.2.state.slots
    slots k = (slots k').take k ∧ (slots k).length ≤ k ∧
      ((∀ m, (gen k).generate.1 = .ok m →
          ∀ d ∈ m.diagnostics, ∀ n, d.cause ≠ .capacityExceeded n) →
        (gen k').generate.1 = (gen k).generate.1) := by
  intro gen slots
  have hstart : (gen k).state = .ofGraph (gen k).material := rfl
  have hhigh : gen k' = (gen k).withLimit (min k' maxInterpolants) := rfl
  have hle : (gen k).settings.slotLimit ≤ min k' maxInterpolants := by
    change min k maxInterpolants ≤ _
    omega
  have hroom : (gen k).settings.room = min k (gen k').settings.room := by
    change (if domain.supportsInterpolants then min k maxInterpolants else 0) =
      min k (if domain.supportsInterpolants then min k' maxInterpolants else 0)
    split <;> omega
  obtain ⟨claimed, hlow, hall⟩ :=
    Generator.slots_withLimit hstart (min k' maxInterpolants)
  rw [← hhigh] at hall
  refine ⟨?_, ?_, fun hfree => ?_⟩
  · change (gen k).generate.2.state.slots = (gen k').generate.2.state.slots.take k
    rw [hlow, hall, hroom, List.take_take]
  · change (gen k).generate.2.state.slots.length ≤ k
    rw [hlow, List.length_take, hroom]
    omega
  · rw [hhigh]
    exact Generator.generate_withLimit hstart hle hfree

/-- Two nodes interpolate: with room for one slot the second one is turned down, with room for two
nothing is left to be cut off. -/
theorem interpolating_cut_off :
    let gen := fun limit => (Generator.new interpolating .surface ⟨[]⟩).withConfig ⟨limit, false⟩
    let slots := fun limit => (gen limit).generate.2.state.slots
    (slots 2).map (·.node) = [⟨0, 2, 1⟩, ⟨0, 1, 1⟩] ∧ slots 1 = (slots 2).take 1 ∧
      (gen 1).generate.1.toOption.map (·.diagnostics.map (·.cause)) =
        some [.capacityExceeded 1] ∧
      (gen 16).generate.1 = (gen 2).generate.1 := by
  have hslots : ((Generator.new interpolating .surface ⟨[]⟩).withConfig
      ⟨2, false⟩).generate.2.state.slots.map (·.node) = [⟨0, 2, 1⟩, ⟨0, 1, 1⟩] := by
    decide +kernel
  have hfull : ((Generator.new interpolating .surface ⟨[]⟩).withConfig
      ⟨1, false⟩).generate.1.toOption.map (·.diagnostics.map (·.cause)) =
        some [.capacityExceeded 1] := by
    decide +kernel
  have hclean : ((Generator.new interpolating .surface ⟨[]⟩).withConfig
      ⟨2, false⟩).generate.1.toOption.map (·.diagnostics) = some [] := by
    decide +kernel
  have hcut := (slots_cut_off interpolating .surface ⟨[]⟩ false 1 2 (by decide)).1
  have hsame := (slots_cut_off interpolating .surface ⟨[]⟩ false 2 16 (by decide)).2.2
  dsimp only at hcut hsame ⊢
  refine ⟨hslots, hcut, hfull, hsame fun m hm d hd => ?_⟩
  rw [hm] at hclean
  obtain hnone : m.diagnostics = [] := Option.some.inj hclean
  rw [hnone] at hd
  cases hd

end ShaderGraph
