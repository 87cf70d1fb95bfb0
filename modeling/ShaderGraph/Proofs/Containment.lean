import ShaderGraph.Proofs.ReplacedRuns

/-! A function that fails to load is contained. The material is generated as if each call of it were
the constant zero, and the only other effect is a diagnostic for each such call. -/

namespace ShaderGraph

open CallTree

section

variable {settings : Settings} {library : Library} {g : Graph} {s u : State} {output : Nat}

/-- Corresponding states between requests. -/
structure State.ContainedPair (settings : Settings) (library : Library) (g : Graph) (s u : State) :
    Prop where
  idle : s.Idle settings g
  idle' : u.Idle (settings.replaced library) (g.replaced library)
  contained : s.Contained library g u

namespace State.ContainedPair

theorem beginStage (h : s.ContainedPair settings library g u) (stage : Stage) :
    (s.beginStage stage).ContainedPair settings library g (u.beginStage stage) where
  idle := h.idle.beginStage stage
  idle' := h.idle'.beginStage stage
  contained :=
    { h.contained with
      stage := rfl
      active := rfl
      memory := fun _ _ => rfl
      zero := fun _ _ _ hv => by rcases hv with hv | hv <;> cases hv
      known := fun _ hsome => by cases hsome
      underway := fun _ hp => by cases hp }

theorem takeWriter (h : s.ContainedPair settings library g u) :
    s.takeWriter.2.ContainedPair settings library g u.takeWriter.2 :=
  ⟨h.idle.takeWriter, h.idle'.takeWriter, h.contained.write {}⟩

end State.ContainedPair

/-- The material output is not replaced. -/
theorem State.Idle.kept_output (h : s.Idle settings g)
    (ho : g.kind? output = some .materialOutput) : Kept library s.instances (0, output) := by
  obtain ⟨node, hn, hk⟩ := Option.map_eq_some_iff.mp ho
  refine ⟨node, ?_, by simp [Node.unloadable, hk]⟩
  rw [node?, h.sound.tree.root]
  exact hn

namespace Generator

variable {e e' : Evaluator}

theorem parameter_contained (hr : settings.resolver = ⟨[library]⟩) (hg : Containable library g)
    (he : Engine.Follows settings g [] e)
    (he' : Engine.Follows (settings.replaced library) (g.replaced library) [] e')
    (ho : g.kind? output = some .materialOutput) (h : s.ContainedPair settings library g u)
    (p : Parameter) :
    (parameter e' output p u).1 = (parameter e output p s).1 ∧
      (parameter e output p s).2.ContainedPair settings library g (parameter e' output p u).2 := by
  have hl := p.located h.idle output
  have hl' := p.located h.idle' output
  have hrun := parameter_runs he h.idle output p
  have hrun' := parameter_runs he' h.idle' output p
  obtain ⟨u', hu', hc⟩ := hrun.contained hr hg h.idle.sound hl (h.idle.kept_output ho) h.contained
  obtain ⟨hvalue, rfl⟩ := hrun'.unique hu'
  exact ⟨congrArg (StageOutput.mk p.target) hvalue, h.idle.runs hl hrun, h.idle'.runs hl' hrun', hc⟩

/-- An interpolant is filled from the same box, in the same calls. -/
theorem interpolant_contained (hr : settings.resolver = ⟨[library]⟩) (hg : Containable library g)
    (he : Engine.Follows settings g [] e)
    (he' : Engine.Follows (settings.replaced library) (g.replaced library) [] e')
    (h : s.ContainedPair settings library g u) {slot : Slot} (hslot : slot ∈ s.slots) (i : Nat) :
    (interpolant e' (slot.replaced library) i u).1 = (interpolant e slot i s).1 ∧
      (interpolant e slot i s).2.ContainedPair settings library g
        (interpolant e' (slot.replaced library) i u).2 ∧
      s.Grows (interpolant e slot i s).2 ∧
      u.Grows (interpolant e' (slot.replaced library) i u).2 := by
  have hslot' : slot.replaced library ∈ u.slots := by
    rw [h.contained.slots]
    exact List.mem_map_of_mem hslot
  obtain ⟨s', hrun, hend⟩ := interpolant_runs he h.idle hslot i
  obtain ⟨u', hrun', hend'⟩ := interpolant_runs he' h.idle' hslot' i
  obtain ⟨hvalid, hcur, -⟩ := h.idle.sound.slots slot hslot
  obtain ⟨hidle, hgrows⟩ := interpolant_idle h.idle hslot hrun
  obtain ⟨hidle', hgrows'⟩ := interpolant_idle h.idle' hslot' hrun'
  obtain ⟨u₁, hu₁, hc⟩ := hrun.contained hr hg (h.idle.sound.withContext hvalid)
    ⟨hcur, slot.recipe_callFree⟩ (h.contained.claimed slot hslot) (h.contained.withContext rfl)
  obtain ⟨hvalue, rfl⟩ := hrun'.unique hu₁
  rw [hend, hend']
  exact ⟨congrArg (StageOutput.mk _) hvalue,
    ⟨hidle, hidle', hc.withContext h.contained.context⟩, hgrows, hgrows'⟩

theorem interpolants_contained (hr : settings.resolver = ⟨[library]⟩) (hg : Containable library g)
    (he : Engine.Follows settings g [] e)
    (he' : Engine.Follows (settings.replaced library) (g.replaced library) [] e')
    (h : s.ContainedPair settings library g u) :
    (interpolants e' u.slots u).1 = (interpolants e s.slots s).1 ∧
      (interpolants e s.slots s).2.ContainedPair settings library g
        (interpolants e' u.slots u).2 := by
  have hslots : List.Forall₂ (fun slot slot' => slot' = slot.replaced library) s.slots u.slots := by
    rw [h.contained.slots, List.forall₂_map_right_iff]
    exact List.forall₂_same.mpr fun _ _ => rfl
  refine interpolants_pair_of (fun slot slot' i s' u' hslot' hslot _ _ _ h' => ?_) hslots h
  subst hslot'
  exact interpolant_contained hr hg he he' h' hslot i

theorem lockstep_contained (hr : settings.resolver = ⟨[library]⟩) (hg : Containable library g)
    (he : Engine.Follows settings g [] e)
    (he' : Engine.Follows (settings.replaced library) (g.replaced library) [] e')
    (ho : g.kind? output = some .materialOutput) :
    Lockstep e e' output output fun s u => s.ContainedPair settings library g u where
  onParameter p _ _ h := parameter_contained hr hg he he' ho h p
  onInterpolants _ _ h := interpolants_contained hr hg he he' h
  beginStage stage _ _ h := h.beginStage stage
  takeWriter _ _ h := h.takeWriter
  writer _ _ h := h.contained.writer

end Generator

theorem State.containedPair_ofGraph (settings : Settings) (library : Library) (g : Graph) :
    (ofGraph g).ContainedPair settings library g (ofGraph (g.replaced library)) where
  idle := ⟨sound_ofGraph settings g, rfl, rfl⟩
  idle' := ⟨sound_ofGraph _ (g.replaced library), rfl, rfl⟩
  contained :=
    { instances := rfl
      context := rfl
      stage := rfl
      writer := rfl
      active := rfl
      slots := rfl
      textures := rfl
      diagnostics := rfl
      reported := fun _ hd => by cases hd
      memory := fun _ _ => rfl
      zero := fun _ _ _ hv => by rcases hv with hv | hv <;> cases hv
      known := fun _ hsome => by cases hsome
      underway := fun _ hp => by cases hp
      claimed := fun _ hm => by cases hm }

end

/-! ### The material of calls that cannot be loaded -/

/-- Replacing each call that cannot be loaded by the constant zero changes nothing of a material but
its diagnostics, and of these exactly those of the replaced calls are gone. This is for graphs in
which no custom code feeds such a call, and functions none of whose outputs is such a call with its
first box connected. -/
theorem unloadable_contained (g : Graph) (domain : Domain) (library : Library) (config : Config)
    (hg : g.SparesCustomCode library)
    (hf : ∀ id f, library.load id = .ok f →
      f.graph.SparesCustomCode library ∧ f.SparesOutputs library) :
    let gen := (Generator.new g domain ⟨[library]⟩).withConfig config
    let gen' := (Generator.new (g.replaced library) domain ⟨[library.replaced]⟩).withConfig config
    (∀ e, gen.generate.1 = .error e → gen'.generate.1 = .error e) ∧
      ∀ m, gen.generate.1 = .ok m → ∃ m', gen'.generate.1 = .ok m' ∧
        m'.pixel = m.pixel ∧ m'.vertex = m.vertex ∧ m'.interpolants = m.interpolants ∧
        m'.textures = m.textures ∧
        m'.diagnostics = m.diagnostics.filter (!·.cause.isUnloadable) ∧
        ∀ d ∈ m.diagnostics, d.cause.isUnloadable → d.OfReplaced library g := by
  intro gen gen'
  have hcontainable : Containable library g :=
    ⟨hg, fun id f hl => (hf id f hl).1, fun id f hl => (hf id f hl).2⟩
  have hfind : gen'.material.findKind? .materialOutput = gen.material.findKind? .materialOutput :=
    Graph.findKind?_materialOutput_replaced library g
  constructor
  · intro e he
    cases ho : gen.material.findKind? .materialOutput with
    | none =>
      rw [Generator.generate_none ho] at he
      cases he
      rw [Generator.generate_none (hfind.trans ho)]
    | some output =>
      rw [Generator.generate_eq ho] at he
      cases he
  · intro m hm
    obtain ⟨output, ho, rfl⟩ := Generator.generate_ok hm
    have hkind : g.kind? output = some .materialOutput := Graph.kind?_of_findKind? ho
    have hlock := Generator.lockstep_contained rfl hcontainable gen.follows_evaluator
      gen'.follows_evaluator hkind
    obtain ⟨pixel, vertex, s, u, hend, hm, hm'⟩ :=
      hlock.stages (State.containedPair_ofGraph gen.settings library g)
    have hlength : u.slots.length = s.slots.length := by
      rw [hend.contained.slots, List.length_map]
    refine ⟨_, congrArg Prod.fst (Generator.generate_eq (hfind.trans ho)), ?_⟩
    have hs : gen.state = State.ofGraph g := rfl
    have hs' : gen'.state = State.ofGraph (g.replaced library) := rfl
    rw [hs, hs', hm, hm']
    exact ⟨rfl, rfl, hlength, hend.contained.textures, hend.contained.diagnostics,
      hend.contained.reported⟩

/-- A function that adds what a function that does not exist makes of the depth to its argument. -/
def faltering : MaterialFunction where
  id := ⟨5⟩
  graph := Graph.build [.add .functionInput [], .add .depth [],
    .add .materialFunction [.asset ⟨99⟩], .add .add [], .add .functionOutput [],
    .connect 1 0 2 0, .connect 0 0 3 0, .connect 2 17 3 1, .connect 3 2 4 0]
  inputs := [1]
  outputs := [5]

def falteringLibrary : Library := ⟨[.loaded faltering, .broken ⟨6⟩ "truncated"]⟩

/-- The argument is a call of a broken function, which also gives the color. The mask is an output
that the function does not have. -/
def faltered : Graph :=
  Graph.build [.add .materialOutput [], .add .materialFunction [.asset faltering.id],
    .add .materialFunction [.asset ⟨6⟩], .connect 2 16 1 0, .connect 1 16 0 5, .connect 2 18 0 0,
    .connect 1 17 0 1]

/-- The calls that cannot be loaded are reported, and give zero; nothing is computed for them. -/
theorem faltered_contained :
    let gen := (Generator.new faltered .surface ⟨[falteringLibrary]⟩).withConfig {}
    let gen' := (Generator.new (faltered.replaced falteringLibrary) .surface
      ⟨[falteringLibrary.replaced]⟩).withConfig {}
    faltered.Built ∧ faltering.graph.Built ∧ faltered.SparesCustomCode falteringLibrary ∧
      faltering.graph.SparesCustomCode falteringLibrary ∧
      faltering.SparesOutputs falteringLibrary ∧
      ∃ m m', gen.generate.1 = .ok m ∧ gen'.generate.1 = .ok m' ∧ m'.pixel = m.pixel ∧
        m'.vertex = m.vertex ∧ m.pixel.code = "  float local0 = 0.0 + 0.0;\n" ∧
        m.diagnostics = [⟨none, [], 3, 18, .missingOrInvalidAsset ⟨6⟩⟩,
          ⟨none, [], 2, 17, .invalidOutput 17⟩, ⟨none, [], 3, 16, .missingOrInvalidAsset ⟨6⟩⟩,
          ⟨some ⟨5⟩, [2], 3, 17, .missingOrInvalidAsset ⟨99⟩⟩] ∧
        m'.diagnostics = [⟨none, [], 2, 17, .invalidOutput 17⟩] := by
  have hg : faltered.SparesCustomCode falteringLibrary := by decide +kernel
  have hf : faltering.graph.SparesCustomCode falteringLibrary ∧
      faltering.SparesOutputs falteringLibrary := by decide +kernel
  have hall := unloadable_contained faltered .surface falteringLibrary {} hg fun id f hl => by
    have hmem := (Resolver.load_ok ((Resolver.load_single falteringLibrary 0 id).trans hl)).1
    obtain rfl : f = faltering := List.mem_singleton.mp hmem
    exact hf
  have hmaterial : ((Generator.new faltered .surface ⟨[falteringLibrary]⟩).withConfig
      {}).generate.1.toOption.map (fun m => (m.pixel.code, m.diagnostics)) =
      some ("  float local0 = 0.0 + 0.0;\n", [⟨none, [], 3, 18, .missingOrInvalidAsset ⟨6⟩⟩,
        ⟨none, [], 2, 17, .invalidOutput 17⟩, ⟨none, [], 3, 16, .missingOrInvalidAsset ⟨6⟩⟩,
        ⟨some ⟨5⟩, [2], 3, 17, .missingOrInvalidAsset ⟨99⟩⟩]) := by
    decide +kernel
  obtain ⟨m, hm, hparts⟩ := Generator.generate_ok_of_map hmaterial
  obtain ⟨hcode, hreports⟩ := Prod.mk.inj hparts
  obtain ⟨m', hm', hpixel, hvertex, -, -, hdiagnostics, -⟩ := hall.2 m hm
  rw [hreports] at hdiagnostics
  exact ⟨⟨_, rfl⟩, ⟨_, rfl⟩, hg, hf.1, hf.2, m, m', hm, hm', hpixel, hvertex, hcode, hreports,
    hdiagnostics⟩

/-- The output of this function is named after a call of one that does not exist, and the first box
of the call is fed. -/
def relaying : MaterialFunction where
  id := ⟨7⟩
  graph := Graph.build [.add .depth [], .add .materialFunction [.asset ⟨9⟩], .connect 0 0 1 0]
  inputs := []
  outputs := [2]

def relayed : Graph :=
  Graph.build [.add .materialOutput [], .add .materialFunction [.asset relaying.id],
    .connect 1 16 0 5]

/-- What feeds the call is the value of the output, without an evaluation of the call. The constant
in its place is fed by nothing. -/
theorem relayed_not_contained :
    let library : Library := ⟨[.loaded relaying]⟩
    let gen := (Generator.new relayed .surface ⟨[library]⟩).withConfig {}
    let gen' := (Generator.new (relayed.replaced library) .surface
      ⟨[library.replaced]⟩).withConfig {}
    relayed.Built ∧ relaying.graph.Built ∧ relayed.SparesCustomCode library ∧
      relaying.graph.SparesCustomCode library ∧ ¬ relaying.SparesOutputs library ∧
      gen.generate.1.toOption.map (·.pixel.code) =
        some "  float local0 = distance(ViewPos, input.WorldPosition.xyz);\n" ∧
      gen'.generate.1.toOption.map (·.pixel.code) = some "" := by
  refine ⟨⟨_, rfl⟩, ⟨_, rfl⟩, ?_, ?_, ?_, ?_, ?_⟩
  · decide +kernel
  · decide +kernel
  · decide +kernel
  · decide +kernel
  · decide +kernel

end ShaderGraph
