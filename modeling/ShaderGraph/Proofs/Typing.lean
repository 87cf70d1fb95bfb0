import ShaderGraph.Proofs.Interpolants
import ShaderGraph.Proofs.Quality

/-! Types of values. In graphs that were built, all boxes are truth values, integers, or float
scalars and vectors. Between these every cast succeeds, and the recipes of all node kinds, fed with
such values, give and remember such values only. So no cast ever fails. -/

namespace ShaderGraph

/-! ### Plain types -/

/-- A truth value, an integer, or a float scalar or vector. -/
inductive ValueType.Plain : ValueType → Prop
  | bool : Plain .bool
  | int : Plain .int
  | float (dim : Dim) : Plain (.float dim)

namespace ValueType

instance : DecidablePred Plain
  | .bool => isTrue .bool
  | .int => isTrue .int
  | .float dim => isTrue (.float dim)
  | .uint | .matrix | .texture => isFalse nofun

theorem Plain.components? {type : ValueType} (h : type.Plain) :
    ∃ n, type.components? = some n := by
  cases h <;> exact ⟨_, rfl⟩

theorem Plain.widest {a b : ValueType} (ha : a.Plain) (hb : b.Plain) : (a.widest b).Plain := by
  unfold ValueType.widest
  split
  · split
    · exact hb
    · exact ha
  · exact ha

end ValueType

open ValueType

namespace Value

variable {ρ : Type}

/-- Every cast between plain types succeeds. -/
theorem cast_ok {v : Value ρ} {target : ValueType} (hv : v.type.Plain) (ht : target.Plain) :
    ∃ w, v.cast target = .ok w ∧ w.type = target := by
  suffices h : ∃ w, v.cast target = .ok w by
    obtain ⟨w, hw⟩ := h
    exact ⟨w, hw, type_cast hw⟩
  obtain ⟨n, hn⟩ := hv.components?
  obtain ⟨m, hm⟩ := ht.components?
  unfold cast
  split
  · exact ⟨v, rfl⟩
  · simp only [hn, hm]
    split
    · exact ⟨_, rfl⟩
    · exact ⟨_, rfl⟩

end Value

theorem NodeKind.plain_layout (kind : NodeKind) : ∀ d ∈ kind.layout, d.type.Plain := by
  have hall : kind.layout.all (fun d => d.type.Plain) = true := by cases kind <;> decide
  simpa using hall

/-! ### Plain values -/

/-- Values of plain types. No cast between them fails. -/
def Quality.plain : Quality where
  value v := v.type.Plain
  type := Plain
  cause c := ∀ source target, c ≠ .typeMismatch source target
  bool := .bool
  int := .int
  float := .float
  widest := .widest
  typeOf h := h
  literal h := h
  zero h := by rwa [Value.type_zero]
  declared _ h := h
  text _ dim := .float dim
  cast _ ht h := by rwa [Value.type_cast h]
  mismatch hv ht h := by
    obtain ⟨w, hw, -⟩ := Value.cast_ok hv ht
    cases h.symm.trans hw
  other h := h

theorem Graph.WellFormed.plain {g : Graph} (h : g.WellFormed) :
    ∀ node ∈ g.nodes, node.Suits .plain := by
  intro n hn b hb
  have hd : b.decl ∈ n.kind.layout := by
    rw [← h.layout n hn]
    exact List.mem_map_of_mem hb
  exact n.kind.plain_layout b.decl hd

/-- A cast that fails is reported next. -/
theorem Recipe.Keeps.cast_ok {α : Type} {Q : α → Prop} {type : ValueType} {v : Value Local}
    {f : Value Local → Recipe Local α} (h : (Recipe.castTo type v >>= f).Keeps .plain Q) :
    ∃ w, v.cast type = .ok w ∧ w.type = type := by
  cases hc : v.cast type with
  | ok w => exact ⟨w, rfl, Value.type_cast hc⟩
  | error e =>
    have hrecipe : Recipe.castTo type v = .report (.ofTypeMismatch e) (.done (.zero type)) := by
      unfold Recipe.castTo
      rw [hc]
    rw [hrecipe] at h
    cases h with
    | report hcause => exact absurd rfl (hcause e.source e.target)

/-- The outputs of the pixel stage, each of the type of its parameter. -/
theorem Generator.pixel_outputs {gen : Generator} {m : Material} (hm : gen.generate.1 = .ok m)
    (h : gen.state.Idle gen.settings gen.material) :
    m.pixel.outputs.map (fun o => (o.target, o.value.type)) =
      (Parameter.inStage .pixel).map fun p => (p.target, p.type) := by
  obtain ⟨output, ho, -⟩ := generate_ok hm
  have houtputs := parameters_outputs gen.follows_evaluator (h.beginStage .pixel) output .pixel
  rw [generate_stages ho] at hm
  dsimp only at hm
  generalize parameters gen.evaluator output .pixel (gen.state.beginStage .pixel) = p at hm houtputs
  obtain rfl := Except.ok.inj hm
  exact houtputs

/-- No run for graphs that were built ever fails a cast. Whatever is asked for and in whatever
domain, all values that are remembered, returned or written are truth values, integers, or float
scalars and vectors; whenever a recipe goes on with a cast, the cast succeeds, and no failed one is
ever reported. The outputs of the stages have the types of their parameters, interpolants four
components. -/
theorem casts_succeed (g : Graph) (domain : Domain) (resolver : Resolver) (config : Config)
    (hg : g.Built) (hf : ∀ f ∈ Engine.functions resolver, f.graph.Built) :
    let start := (Generator.new g domain resolver).withConfig config
    (∀ s, start.Reaches s → (∀ key v, s.remembered? key = some v → v.type.Plain) ∧
      ∀ d ∈ s.diagnostics, ∀ source target, d.cause ≠ .typeMismatch source target) ∧
    ∀ requests,
      (∀ request, ((start.after requests).answer request).1.type.Plain) ∧
      (∃ l, Courses start.settings (start.allEvaluations requests) l) ∧
      (∀ l, Courses start.settings (start.allEvaluations requests) l → ∀ y ∈ l,
        y.value.type.Plain ∧ ∀ key type v f, y.task = .recipe key (Recipe.castTo type v >>= f) →
          ∃ w, v.cast type = .ok w ∧ w.type = type) ∧
      ∀ m, (start.after requests).generate.1 = .ok m →
        (∀ o ∈ m.pixel.outputs ++ m.vertex.outputs, o.value.type.Plain) ∧
        m.pixel.outputs.map (fun o => (o.target, o.value.type)) =
          (Parameter.inStage .pixel).map (fun p => (p.target, p.type)) ∧
        m.vertex.outputs.map (fun o => (o.target, o.value.type)) =
          (Parameter.inStage .vertex).map (fun p => (p.target, p.type)) ++
            (List.range m.interpolants).map (fun i => (s!"CustomVSToPS[{i}]", .float4)) := by
  intro start
  have hidle : start.state.Idle start.settings start.material :=
    Generator.idle_new g domain resolver config
  have hrun := Quality.run hidle (.ofGraph .plain g) hg.wellFormed.plain
    fun f hmem => (hf f hmem).wellFormed.plain
  clear_value start
  obtain ⟨hreach, hrun⟩ := hrun
  refine ⟨fun s hs => ?_, fun requests => ?_⟩
  · have h := hreach s hs
    exact ⟨fun key v hv => h.memory (_, _) (State.mem_of_remembered? hv), h.diagnostics⟩
  · obtain ⟨hset, hmat, hidle'⟩ := Generator.after_idle hidle requests
    have hgen : (start.after requests).state.Idle (start.after requests).settings
        (start.after requests).material := by rwa [hset, hmat]
    obtain ⟨hanswer, hcourses, hvalues, houtputs⟩ := hrun requests
    refine ⟨hanswer, hcourses, fun l hl y hy => ?_, fun m hm => ?_⟩
    · obtain ⟨hkeeps, hv⟩ := hvalues l hl y hy
      refine ⟨hv, fun key type v f htask => ?_⟩
      rw [htask] at hkeeps
      exact Recipe.Keeps.cast_ok hkeeps
    · exact ⟨houtputs m hm, Generator.pixel_outputs hm hgen, (Generator.vertex_outputs hm hgen).1⟩

/-! ### Casts between operands -/

/-- A truth value is added to a vector and passed to a function, and is interpolated. -/
def mixing : Graph :=
  Graph.build [.add .materialOutput [], .add .bool [.bool true], .add .vector2 [], .add .add [],
    .add .materialFunction [.asset doubling.id], .add .interpolateVsToPs [], .connect 1 0 3 0,
    .connect 2 0 3 1, .connect 3 2 4 0, .connect 4 16 0 0, .connect 1 0 5 0, .connect 5 1 0 2]

/-- The sum is a vector, and all outputs have plain types. -/
theorem mixing_casts_succeed :
    let gen := (Generator.new mixing .surface ⟨[⟨[.loaded doubling]⟩]⟩).withConfig {}
    mixing.Built ∧ doubling.graph.Built ∧
      (gen.answer (.output 3 2)).1.type = .float2 ∧ (gen.answer (.output 3 2)).1.type.Plain ∧
      ∃ m, gen.generate.1 = .ok m ∧ m.interpolants = 1 ∧
        ∀ o ∈ m.pixel.outputs ++ m.vertex.outputs, o.value.type.Plain := by
  have hg : mixing.Built := ⟨_, rfl⟩
  have hall := (casts_succeed mixing .surface ⟨[⟨[.loaded doubling]⟩]⟩ {} hg
    (List.forall_mem_singleton.mpr doubling_built)).2 []
  have htype : (((Generator.new mixing .surface ⟨[⟨[.loaded doubling]⟩]⟩).withConfig {}).answer
      (.output 3 2)).1.type = .float2 := by decide +kernel
  have hcount : (((Generator.new mixing .surface ⟨[⟨[.loaded doubling]⟩]⟩).withConfig
      {}).generate.1.toOption.map (·.interpolants)) = some 1 := by decide +kernel
  dsimp only
  generalize (Generator.new mixing .surface ⟨[⟨[.loaded doubling]⟩]⟩).withConfig {} = gen
    at hall htype hcount ⊢
  obtain ⟨hanswer, -, -, houtputs⟩ := hall
  refine ⟨hg, doubling_built, htype, hanswer _, ?_⟩
  obtain ⟨m, hm, hone⟩ := Generator.generate_ok_of_map hcount
  exact ⟨m, hm, hone, (houtputs m hm).1⟩

end ShaderGraph
