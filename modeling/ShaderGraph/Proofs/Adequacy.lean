import ShaderGraph.Proofs.InstanceTree

/-! The evaluator follows the rules of evaluation. In a sound state with fewer nodes under way than
the tree of calls has, an unrolling that is as deep as the difference never gets to its end. -/

namespace ShaderGraph

namespace Engine

variable {settings : Settings} {g : Graph} {active : List (Nat × Nat)} {e : Evaluator}

/-- The evaluator gives what the rules give, in sound states with the given nodes under way. -/
def Follows (settings : Settings) (g : Graph) (active : List (Nat × Nat)) (e : Evaluator) : Prop :=
  ∀ key s, s.Sound settings g → (Task.box key).Located s → s.active = active →
    Runs settings (.box key) s (e key s).1 (e key s).2

theorem Follows.recipe (he : Follows settings g active e) (key : BoxKey)
    (r : Recipe Local (Value Local)) (s : State) (hs : s.Sound settings g)
    (hl : (Task.recipe key r).Located s) (ha : s.active = active) :
    Runs settings (.recipe key r) s (run settings e key r s).1 (run settings e key r s).2 := by
  -- a request that is no operand is carried out at once
  have heffect : ∀ {r r' : Recipe Local (Value Local)} {s s' : State},
      r.effect? settings key s = some (r', s') → s.Sound settings g →
      (Task.recipe key r).Located s → s.active = active →
      (∀ s, s.Sound settings g → (Task.recipe key r').Located s → s.active = active →
        Runs settings (.recipe key r') s (run settings e key r' s).1 (run settings e key r' s).2) →
      Runs settings (.recipe key r) s (run settings e key r s).1 (run settings e key r s).2 := by
    intro r r' s s' hr hs hl ha ih
    obtain ⟨hs', hl'⟩ := hs.effect hl hr
    rw [run_effect hr]
    exact .unary (.effect hr) (ih s' hs' hl' ((State.grows_effect s hr).active.trans ha))
  induction r generalizing s with
  | done v => exact .leaf .done
  | operand box next ih =>
    rw [run_operand]
    cases hp : s.producer? (key.sibling box) with
    | none => exact .unary (.unconnected hp) (ih none s hs (hl.answer (.refl s) none) ha)
    | some producer =>
      have hrun := he producer s hs (hl.fed hp) ha
      refine .binary (.connected hp) hrun (ih _ _ (hrun.sound hs (hl.fed hp)) ?_ ?_)
      · exact hl.answer hrun.grows _
      · exact hrun.grows.active.trans ha
  | declare type init next ih => exact heffect rfl hs hl ha fun s => ih _ s
  | block body next ih => exact heffect rfl hs hl ha ih
  | comment text next ih => exact heffect rfl hs hl ha ih
  | report cause next ih => exact heffect rfl hs hl ha ih
  | use feature next ih => exact heffect rfl hs hl ha ih
  | sample texture next ih => exact heffect rfl hs hl ha ih
  | remember box value next ih => exact heffect rfl hs hl ha ih
  | claim input next ih => exact heffect rfl hs hl ha fun s => ih _ s

theorem Follows.call (he : Follows settings g active e) {site : Site} {s : State}
    (hs : s.Sound settings g) (hl : (Task.node site).Located s) (ha : s.active = active)
    (hk : site.node.kind = .materialFunction) :
    Runs settings (.node site) s (process settings e site s).1 (process settings e site s).2 := by
  rw [process_call hk]
  cases hload : settings.resolver.load s.loads.length site.node.callee with
  | error err =>
    rw [call_notLoaded hload]
    exact .leaf (.notLoaded hk hload)
  | ok function =>
    cases hc : s.isCalling site.node.callee with
    | true =>
      rw [call_recursive hload hc]
      exact .leaf (.recursive hk hload hc)
    | false =>
      cases hi : (s.ask site.node.callee).instantiate site function with
      | mk graph s' =>
        rw [call_made hload hc hi]
        cases ho : outputNode? s' site function graph with
        | none => exact .leaf (.unlisted hk hload hc hi ho)
        | some output =>
          dsimp only
          rw [enter_eq]
          cases hp : s'.producer? ⟨graph, output, 0⟩ with
          | none => exact .leaf (.unfed hk hload hc hi ho hp)
          | some producer =>
            obtain ⟨hin, hbox⟩ := hs.enter hl hk hload hc hi hp
            have hgrows := State.grows_instantiate (s.ask site.node.callee) site function
            rw [hi] at hgrows
            exact .unary (.called hk hload hc hi ho hp)
              (he producer _ hin hbox (hgrows.active.trans ha))

theorem Follows.argument (he : Follows settings g active e) {site : Site} {s : State}
    (hs : s.Sound settings g) (hl : (Task.node site).Located s) (ha : s.active = active)
    (hk : site.node.kind = .functionInput) :
    Runs settings (.node site) s (process settings e site s).1 (process settings e site s).2 := by
  rw [process_argument hk]
  by_cases hf : ∃ frame, s.context.currentFrame? = some frame ∧ frame.graph = site.key.graph
  · obtain ⟨frame, hf, hg⟩ := hf
    rw [argument_inside hf hg]
    cases hb : frame.argument? site.node.id with
    | none => exact .leaf (.undeclared hk hf hg hb)
    | some box =>
      dsimp only
      cases hp : s.producer? box with
      | none => exact .unary (.defaulted hk hf hg hb hp) (he.recipe _ _ s hs hl.default ha)
      | some producer =>
        obtain ⟨hin, hbox⟩ := hs.toCaller hl hf hb hp
        exact .unary (.passed hk hf hg hb hp) (he producer _ hin hbox ha)
  · have hf : ∀ frame, s.context.currentFrame? = some frame → frame.graph ≠ site.key.graph :=
      fun frame hframe hg => hf ⟨frame, hframe, hg⟩
    rw [argument_outside hf]
    exact .leaf (.outside hk hf)

theorem Follows.process (he : Follows settings g active e) {site : Site} {s : State}
    (hs : s.Sound settings g) (hl : (Task.node site).Located s) (ha : s.active = active) :
    Runs settings (.node site) s (process settings e site s).1 (process settings e site s).2 := by
  by_cases hc : site.node.kind = .materialFunction
  · exact he.call hs hl ha hc
  · by_cases hi : site.node.kind = .functionInput
    · exact he.argument hs hl ha hi
    · rw [process_plain hc hi]
      exact .unary (.plain hc hi) (he.recipe _ _ s hs (hl.recipe _ _) ha)

/-- One more level of the evaluator follows the rules with one node less under way. -/
theorem Follows.level (he : ∀ p, Follows settings g (p :: active) e) :
    Follows settings g active (level settings e) := by
  intro key s hs hl ha
  cases hm : s.remembered? key with
  | some v =>
    rw [level_remembered hm]
    exact .leaf (.remembered hm)
  | none =>
    cases hsite : s.site? key with
    | none =>
      rw [level_absent hm hsite]
      exact .leaf (.absent hm hsite)
    | some site =>
      by_cases hact : (key.graph, key.node) ∈ s.active
      · rw [level_reentered hm hsite hact]
        exact .leaf (.reentered hm hsite hact)
      · rw [level_dispatched hm hsite hact]
        obtain rfl := State.key_of_site? hsite
        refine .unary (.dispatched hm hsite hact) ?_
        exact (he _).process (hs.start hl hsite hact) (hl.node hsite) (by rw [← ha]; rfl)

/-- An unrolling follows the rules if its depth exceeds the number of nodes that can still get
under way. -/
theorem follows_unroll (base : Evaluator) (depth : Nat)
    (h : (settings.resolver.places g).card < depth + active.length) :
    Follows settings g active (unroll settings base depth) := by
  induction depth generalizing active with
  | zero =>
    intro key s hs _ ha
    have hle := hs.active.length_le hs.tree
    rw [ha] at hle
    omega
  | succ depth ih => exact Follows.level fun p => ih (by rw [List.length_cons]; omega)

/-- The evaluator follows the rules. -/
theorem follows_output : Follows settings g [] (output settings (bound settings.resolver g)) := by
  rw [output_eq_unroll]
  exact follows_unroll _ _ (by simpa using settings.resolver.card_places_lt_bound g)

end Engine

/-- The rules leave no choice. -/
theorem Runs.unique {settings : Settings} {t : Task} {s s₁ s₂ : State} {v w : Value Local}
    (h : Runs settings t s v s₁) (h' : Runs settings t s w s₂) : v = w ∧ s₁ = s₂ := by
  obtain ⟨n, hn⟩ := h.eval_unroll
  obtain ⟨m, hm⟩ := h'.eval_unroll
  let base : Evaluator := fun _ => return .zero .float1
  have heq := (hn base (max n m) (Nat.le_max_left n m)).symm.trans
    (hm base (max n m) (Nat.le_max_right n m))
  exact Prod.mk.inj heq

end ShaderGraph
