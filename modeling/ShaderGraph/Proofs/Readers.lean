import ShaderGraph.Proofs.ComputedOnce

/-! Custom code and those who read its outputs agree. In each stage its block is written once. Every
output that another box reads has a local of its own, which is declared before the block, stands in
the block for the placeholder of the output, and is the value that the readers get. -/

namespace ShaderGraph

open CallTree CustomCode

/-! ### Blocks -/

namespace Evaluation

variable {settings : Settings} {y : Evaluation} {key : BoxKey} {body : Code Local}

theorem task_of_block? (h : y.task.block? = some (key, body)) :
    ∃ next, y.task = .recipe key (.block body next) := by
  obtain ⟨⟨k, r⟩, hr, hbody⟩ := Option.bind_eq_some_iff.mp h
  obtain ⟨b, hb, hpair⟩ := Option.map_eq_some_iff.mp hbody
  obtain ⟨rfl, rfl⟩ := Prod.mk.inj hpair
  obtain ⟨task, before, value, after⟩ := y
  cases task with
  | recipe k r =>
    cases hr
    cases r with
    | block => exact ⟨_, by cases hb; rfl⟩
    | _ => cases hb
  | _ => cases hr

theorem written_of_block? (h : y.task.block? = some (key, body)) :
    y.written settings = [.block body] := by
  obtain ⟨next, ht⟩ := task_of_block? h
  simp [written, ht, Task.recipe?, Recipe.effect?, Writer.push]

/-- Blocks are written as such, and by nothing else. -/
theorem block?_of_mem_written (h : .block body ∈ y.written settings) :
    ∃ key, y.task.block? = some (key, body) := by
  obtain ⟨task, before, value, after⟩ := y
  cases task with
  | recipe key r =>
    cases r with
    | block body' =>
      obtain rfl : body = body' := by
        simpa [written, Task.recipe?, Recipe.effect?, Writer.push] using h
      exact ⟨key, rfl⟩
    | declare => simp [written, Task.recipe?, Recipe.effect?, Writer.declare, Writer.push] at h
    | comment text next =>
      cases hc : settings.comments <;>
        simp [written, Task.recipe?, Recipe.effect?, Writer.push, hc] at h
    | report cause =>
      have hsame := State.SameCode.report before key cause
      simp [written, Task.recipe?, Recipe.effect?, hsame.writer] at h
    | sample texture =>
      have hsame := State.SameCode.sample before texture
      simp [written, Task.recipe?, Recipe.effect?, hsame.writer] at h
    | remember box value =>
      obtain ⟨memory, hm⟩ := before.remember_eq (key.sibling box) value
      simp [written, Task.recipe?, Recipe.effect?, hm] at h
    | claim input =>
      have hsame := State.SameCode.claim before settings key (key.sibling input)
      simp [written, Task.recipe?, Recipe.effect?, hsame.writer] at h
    | use => simp [written, Task.recipe?, Recipe.effect?, State.use] at h
    | done | operand => simp [written, Task.recipe?, Recipe.effect?] at h
  | _ => simp [written, Task.recipe?] at h

end Evaluation

namespace Template

variable {ρ : Type}

theorem placeholder?_output {k : Nat} (hk : k < outputCount) :
    placeholder? s!"Output{k}".toList = some (.output k) := by
  have hall : (List.range outputCount).all (fun k =>
      placeholder? s!"Output{k}".toList == some (.output k)) = true := by decide +kernel
  simpa using List.all_eq_true.mp hall k (List.mem_range.mpr hk)

theorem tokenCode_output {inputs outputs : List (Option (Code ρ))} {k : Nat} {code : Code ρ}
    (hk : k < outputCount) (h : outputs[k]? = some (some code)) :
    tokenCode inputs outputs s!"Output{k}".toList = code := by
  simp only [tokenCode, placeholder?_output hk, bound, h]

end Template

/-! ### What is under way -/

section

variable {settings : Settings} {g : Graph} {table : List Instance} {p : Nat × Nat}
  {x y : Evaluation} {s s' : State} {xs l : List Evaluation}

/-- A node that comes under way is computed. -/
theorem Course.site_of_active (h : Course settings x l) (hy : y ∈ l) (hp : p ∈ y.before.active) :
    p ∈ x.before.active ∨ ∃ site ∈ sitesOf l, site.key.place = p := by
  refine h.ascend (P := fun y => p ∈ y.before.active) (fun z _ y hy hn ha => ?_) ?_ hy hp
  · by_cases hd : ∃ site, y.task = .node site ∧ site.key.place = p
    · obtain ⟨site, ht, hplace⟩ := hd
      exact .inr ⟨site, mem_sitesOf.mpr ⟨y, hy, ht⟩, hplace⟩
    · refine .inl (by_contra fun hz => hn.not_active (fun site ht he => ?_) hz ha)
      exact hd ⟨site, ht, he⟩
  · rintro z y w hn hr (ha | ha)
    · cases hn
      exact .inl ha
    · cases hn
      exact .inl (hr.grows.active ▸ ha)

/-- A node is evaluated for a box that is. -/
theorem Course.box_of_node (h : Course settings x l) {site : Site} (hy : y ∈ l)
    (ht : y.task = .node site) : x.task = .node site ∨ ∃ z ∈ l, z.task = .box site.key := by
  refine h.ascend (P := fun y => y.task = .node site) (fun z hz y _ hn ht => ?_) ?_ hy ht
  · cases hn with
    | dispatched _ hs =>
      cases ht
      exact .inr ⟨_, hz, by rw [State.key_of_site? hs]⟩
    | _ => cases ht
  · rintro z y w hn - (ht | ht)
    · cases hn
      cases ht
    · cases hn
      cases ht

theorem Succession.box_of_node (h : Succession settings g s xs s') (hl : Courses settings xs l)
    {site : Site} (hy : y ∈ l) (ht : y.task = .node site) : ∃ z ∈ l, z.task = .box site.key := by
  obtain ⟨x, -, l', hsub, hc, hmem, htop, -⟩ := h.exists_course hl hy
  rcases hc.box_of_node hmem ht with hnode | ⟨z, hz, hbox⟩
  · rw [hnode] at htop
    cases htop
  · exact ⟨z, hsub hz, hbox⟩

/-- What an evaluation writes follows on all that was written before it. -/
theorem Succession.written_prefix (h : Succession settings g s xs s') (hl : Courses settings xs l)
    (hy : y ∈ l) : y.before.writer.statements ++ y.written settings <+: s'.writer.statements := by
  obtain ⟨x, -, l', -, hc, hmem, -⟩ := h.exists_course hl hy
  obtain ⟨ly, hcy, -⟩ := hc.mem hmem
  have hafter := hcy.statements
  rw [hcy.eq_cons, List.flatMap_cons, ← List.append_assoc] at hafter
  have hprefix := List.prefix_append (y.before.writer.statements ++ y.written settings)
    (ly.tail.flatMap (·.written settings))
  rw [← hafter] at hprefix
  exact hprefix.trans (h.forall_mem hl y hy).2.2.2.statements

namespace StageRun

theorem site_of_active (h : StageRun settings g table s xs s') (hl : Courses settings xs l)
    (hy : y ∈ l) (hp : p ∈ y.before.active) : ∃ site ∈ sitesOf l, site.key.place = p := by
  obtain ⟨x, -, l', hsub, hc, hmem, -, hactive, -⟩ := h.succession.exists_course hl hy
  rcases hc.site_of_active hmem hp with hx | ⟨site, hsite, hplace⟩
  · rw [hactive] at hx
    cases hx
  · obtain ⟨z, hz, ht⟩ := mem_sitesOf.mp hsite
    exact ⟨site, mem_sitesOf.mpr ⟨z, hsub hz, ht⟩, hplace⟩

theorem box_of_computed (h : StageRun settings g table s xs s') (hl : Courses settings xs l)
    {key : BoxKey} (hk : key ∈ s'.computed) : ∃ z ∈ l, z.task = .box key := by
  rw [(h.succession.computed hl).computed, h.computed, List.append_nil, List.mem_reverse] at hk
  obtain ⟨site, hsite, rfl⟩ := List.mem_map.mp hk
  obtain ⟨y, hy, ht⟩ := mem_sitesOf.mp hsite
  exact h.succession.box_of_node hl hy ht

/-- If a box of custom code is evaluated, one of its outputs is computed. -/
theorem exists_output (h : StageRun settings g table s xs s') (hl : Courses settings xs l)
    {key : BoxKey} {node : Node} {text : String}
    (hn : node? table key.graph key.node = some node) (hc : node.IsCustom text) (hy : y ∈ l)
    (ht : y.task = .box key) : ∃ key' ∈ s'.computedAt key.place, CustomOutput table key' := by
  by_cases ha : key.place ∈ y.before.active
  · -- the node is under way, for one of its outputs
    obtain ⟨site, hsite, hplace⟩ := h.site_of_active hl hy ha
    obtain ⟨hgraph, hnode⟩ := Prod.mk.inj hplace
    rw [← hgraph, ← hnode] at hn
    refine ⟨site.key, hplace ▸ h.mem_computedAt hl hsite, ?_⟩
    exact (h.holds hl hsite).2.customOutput h.wellFormed hn hc
  · have hfed := h.fed hl y hy
    rw [ht] at hfed
    have hm := (h.passage hl key.place).agree y hy key ht rfl ha
    exact (h.passage hl key.place).settled.untouched key rfl
      (hfed.customOutput h.wellFormed hn hc) (by rw [hm]; rfl)

end StageRun

end

/-! ### Agreement -/

/-- Among the evaluations `l`, it is `y` that writes the block of the custom code at a place, with a
local for each output that is read. -/
structure Serves (settings : Settings) (table : List Instance) (l : List Evaluation)
    (p : Nat × Nat) (text : String) (y : Evaluation) (locals : Nat → Local) : Prop where
  only : blocksAt p l = [y]
  /-- The text with the locals for the placeholders of the outputs, after all that was written
  before. -/
  block : ∃ inputs outputs, y.written settings =
      [.block ((Template.tokens text.toList).flatMap (Template.tokenCode inputs outputs))] ∧
    y.before.writer.statements ++ y.written settings <+: l.flatMap (·.written settings) ∧
    ∀ k < outputCount, Feeds table ⟨p.1, p.2, outputBox k⟩ →
      Template.tokenCode inputs outputs s!"Output{k}".toList = [.ref (locals k)]
  declared : ∀ k < outputCount, Feeds table ⟨p.1, p.2, outputBox k⟩ →
    .declare (locals k) .float4 (Value.zero .float4).code ∈ y.before.writer.statements
  distinct : ∀ j < outputCount, ∀ k < outputCount, Feeds table ⟨p.1, p.2, outputBox j⟩ →
    Feeds table ⟨p.1, p.2, outputBox k⟩ → locals j = locals k → j = k
  /-- Unless the node is under way, its outputs are the locals. -/
  readers : ∀ z ∈ l, ∀ k < outputCount, z.task = .box ⟨p.1, p.2, outputBox k⟩ →
    p ∉ z.before.active → z.value = .expr .float4 [.ref (locals k)]
  /-- When the node is evaluated, all other boxes are done before the block. -/
  inputs : ∃ w lw site, Course settings w lw ∧ lw ⊆ l ∧ w.task = .node site ∧
    site.key.place = p ∧ y ∈ lw ∧ ∀ z ∈ lw, ∀ key, z.task = .box key →
      z.after.writer.statements <+: y.before.writer.statements

section

variable {settings : Settings} {g : Graph} {table : List Instance} {p : Nat × Nat}
  {x y : Evaluation} {s s' : State} {xs l : List Evaluation}

theorem StageRun.serves (h : StageRun settings g table s xs s') (hl : Courses settings xs l)
    (hempty : s.writer.statements = []) {w : Evaluation} {lw : List Evaluation} {site : Site}
    {text : String} {outputs : List (Option (Value Local))}
    (hw : WrittenBy settings table p l s' w lw site text y outputs) :
    ∃ locals, Serves settings table l p text y locals := by
  obtain rfl := hw.place
  have hy : y ∈ lw := (List.mem_filter.mp (hw.custom.only ▸ List.mem_singleton_self y)).1
  obtain ⟨inputs, hbody⟩ := hw.custom.body
  have hwritten : y.written settings = [.block _] := Evaluation.written_of_block? hbody
  rw [Template.render_parse] at hwritten
  have hread : ∀ k,
      Feeds table ⟨site.key.graph, site.key.node, outputBox k⟩ ↔ site.isRead k = true :=
    hw.holds.feeds_iff h.wellFormed
  have hfed : ∀ k, ∃ n, k < outputCount → site.isRead k = true →
      outputs[k]? = some (some (.expr .float4 [.ref n])) ∧
        .declare n .float4 (Value.zero .float4).code ∈ y.before.writer.statements := by
    intro k
    by_cases hk : k < outputCount ∧ site.isRead k = true
    · obtain ⟨n, hn⟩ := hw.custom.fed hk.1 hk.2
      exact ⟨n, fun _ _ => hn⟩
    · exact ⟨0, fun hlt hr => absurd ⟨hlt, hr⟩ hk⟩
  choose locals hlocals using hfed
  refine ⟨locals, hw.only, ⟨_, _, hwritten, ?_, fun k hk hf => ?_⟩, fun k hk hf => ?_,
    fun j hj k hk hfj hfk he => ?_, fun z hz k hk ht ha => ?_, ?_⟩
  · have hprefix := h.succession.written_prefix hl (hw.subset hy)
    rwa [h.succession.statements hl, hempty, List.nil_append] at hprefix
  · refine Template.tokenCode_output hk ?_
    rw [List.getElem?_map, (hlocals k hk ((hread k).mp hf)).1]
    rfl
  · exact (hlocals k hk ((hread k).mp hf)).2
  · have hj := (hlocals j hj ((hread j).mp hfj)).1
    rw [he] at hj
    exact hw.custom.distinct hj (hlocals k hk ((hread k).mp hfk)).1
  · have hf := h.fed hl z hz
    rw [ht] at hf
    have hvalue := (h.passage hl site.key.place).agree z hz _ ht rfl ha
    have hlocal := hw.remembered k hk _ (hlocals k hk ((hread k).mp hf)).1
    exact Option.some.inj (hvalue.symm.trans hlocal)
  · exact ⟨w, lw, site, hw.course, hw.subset, hw.custom.node, rfl, hy, hw.custom.boxes⟩

end

/-- The custom code of a stage agrees with its readers. A block is written for the custom code that
is evaluated, and for no other. -/
structure CustomAgrees (settings : Settings) (table : List Instance) (l : List Evaluation)
    (code : String) : Prop where
  code_eq : code = Writer.source ⟨l.flatMap (·.written settings)⟩
  blocks : ∀ z ∈ l, ∀ body, .block body ∈ z.written settings →
    ∃ key, z.task.block? = some (key, body)
  unused : ∀ graph n, (∀ z ∈ l, ∀ box, z.task ≠ .box ⟨graph, n, box⟩) → blocksAt (graph, n) l = []
  serves : ∀ graph n node text, node? table graph n = some node → node.IsCustom text →
    (∃ z ∈ l, ∃ box, z.task = .box ⟨graph, n, box⟩) →
    ∃ y locals, Serves settings table l (graph, n) text y locals

theorem StageRun.customAgrees {settings : Settings} {g : Graph} {table : List Instance}
    {s s' : State} {xs l : List Evaluation} (h : StageRun settings g table s xs s')
    (hl : Courses settings xs l) (hempty : s.writer.statements = []) :
    CustomAgrees settings table l s'.writer.source := by
  constructor
  case code_eq =>
    have hstatements := h.succession.statements hl
    rw [hempty, List.nil_append] at hstatements
    rw [← hstatements]
  case blocks => exact fun z _ body => Evaluation.block?_of_mem_written
  case unused =>
    intro graph n hnone
    rcases (h.passage hl (graph, n)).blocks with ⟨hb, -⟩ | ⟨-, -, w, lw, site, _, _, _, hw⟩
    · exact hb
    · have hmem : w ∈ l := hw.subset hw.course.self_mem
      obtain ⟨z, hz, ht⟩ := h.succession.box_of_node hl hmem hw.custom.node
      obtain ⟨rfl, rfl⟩ := Prod.mk.inj hw.place
      exact absurd ht (hnone z hz site.key.box)
  case serves =>
    rintro graph n node text hn hc ⟨z, hz, box, ht⟩
    obtain ⟨key, hk, hout⟩ := h.exists_output hl hn hc hz ht
    rcases (h.passage hl (graph, n)).blocks with ⟨-, hold⟩ | ⟨-, -, w, lw, site, text', y, _, hw⟩
    · have hbefore := hold key hk hout
      rw [State.computedAt, h.computed] at hbefore
      cases hbefore
    · obtain ⟨locals, hserves⟩ := h.serves hl hempty hw
      obtain ⟨rfl, rfl⟩ := Prod.mk.inj hw.place
      obtain rfl := Option.some.inj (hn.symm.trans hw.holds.node?)
      obtain rfl : text' = text := hw.custom.custom.text_eq.symm.trans hc.text_eq
      exact ⟨y, locals, hserves⟩

/-- Custom code agrees with its readers in both stages of a material whose graphs were all built. -/
theorem custom_code_agrees_with_readers (g : Graph) (domain : Domain) (resolver : Resolver)
    (config : Config) (m : Material) (hg : g.Built)
    (hf : ∀ f ∈ Engine.functions resolver, f.graph.Built)
    (hm : ((Generator.new g domain resolver).withConfig config).generate.1 = .ok m) :
    let gen := (Generator.new g domain resolver).withConfig config
    let table := gen.generate.2.state.instances
    ∃ l₁ l₂, Courses gen.settings (gen.evaluations .pixel) l₁ ∧
      Courses gen.settings (gen.evaluations .vertex) l₂ ∧
      CustomAgrees gen.settings table l₁ m.pixel.code ∧
      CustomAgrees gen.settings table l₂ m.vertex.code := by
  intro gen table
  have hidle : gen.state.Idle gen.settings gen.material :=
    (Generator.idle_after g domain resolver config []).2.2
  obtain ⟨s₁, s₂, hpixel, hvertex, -, hrun₁, hrun₂⟩ := Generator.generate_stageRuns hm hidle hg hf
  obtain ⟨l₁, hl₁⟩ := hrun₁.succession.courses
  obtain ⟨l₂, hl₂⟩ := hrun₂.succession.courses
  exact ⟨l₁, l₂, hl₁, hl₂, hpixel ▸ hrun₁.customAgrees hl₁ rfl,
    hvertex ▸ hrun₂.customAgrees hl₂ rfl⟩

/-- Custom code whose first output is read by the call and its second by two boxes, one of them an
input of its own. -/
theorem shared_custom_code_agrees :
    let gen := (Generator.new sharing .surface ⟨[⟨[.loaded doubling]⟩]⟩).withConfig {}
    ∃ (m : Material) (l : List Evaluation) (y : Evaluation) (locals : Nat → Local),
      gen.generate.1 = .ok m ∧ Courses gen.settings (gen.evaluations .vertex) l ∧
      m.vertex.code = Writer.source ⟨l.flatMap (·.written gen.settings)⟩ ∧
      Serves gen.settings gen.generate.2.state.instances l (0, 1)
        "Output0 = Input0; Output1 = Input1;" y locals ∧
      locals 0 ≠ locals 1 := by
  have hg : sharing.Built := ⟨_, rfl⟩
  have hf : ∀ f ∈ Engine.functions ⟨[⟨[.loaded doubling]⟩]⟩, f.graph.Built :=
    List.forall_mem_singleton.mpr doubling_built
  obtain ⟨output, ho⟩ : ∃ output, sharing.findKind? .materialOutput = some output :=
    Option.isSome_iff_exists.mp (by decide +kernel)
  have hm : ((Generator.new sharing .surface ⟨[⟨[.loaded doubling]⟩]⟩).withConfig {}).generate.1 =
      .ok _ := congrArg Prod.fst (Generator.generate_eq ho)
  have hall :=
    custom_code_agrees_with_readers sharing .surface ⟨[⟨[.loaded doubling]⟩]⟩ {} _ hg hf hm
  obtain ⟨s₁, s₂, -, -, hlast, -, hrun⟩ := Generator.generate_stageRuns hm
    (Generator.idle_after sharing .surface ⟨[⟨[.loaded doubling]⟩]⟩ {} []).2.2 hg hf
  have hcomputed : ⟨0, 1, 8⟩ ∈ ((Generator.new sharing .surface ⟨[⟨[.loaded doubling]⟩]⟩).withConfig
      {}).generate.2.state.computed := by decide +kernel
  have hroot : ((Generator.new sharing .surface ⟨[⟨[.loaded doubling]⟩]⟩).withConfig
      {}).generate.2.state.instances[0]?.map (·.graph) = some sharing := by decide +kernel
  obtain ⟨node, hn, hnode⟩ := Option.map_eq_some_iff.mp
    (show (sharing.node? 1).map (fun n => (n.kind, ((n.param? 0).bind Param.text?).getD "")) =
      some (.customCode, "Output0 = Input0; Output1 = Input1;") by decide +kernel)
  dsimp only at hall ⊢
  generalize ((Generator.new sharing .surface ⟨[⟨[.loaded doubling]⟩]⟩).withConfig
    {}).generate.2.state = last at hall hlast hrun hcomputed hroot ⊢
  obtain ⟨l₁, l₂, -, hl, -, hagrees⟩ := hall
  obtain ⟨⟨_, origin⟩, hi, rfl⟩ := Option.map_eq_some_iff.mp hroot
  obtain ⟨hkind, htext⟩ := Prod.mk.inj hnode
  have hcustom : node.IsCustom "Output0 = Input0; Output1 = Input1;" :=
    ⟨hkind, htext, by decide +kernel⟩
  have hbox : ∃ z ∈ l₂, z.task = .box ⟨0, 1, 8⟩ := by
    refine hrun.box_of_computed hl ?_
    rw [hlast] at hcomputed
    exact hcomputed
  obtain ⟨z, hz, ht⟩ := hbox
  obtain ⟨y, locals, hserves⟩ := hagrees.serves 0 1 node _
    (Option.bind_eq_some_iff.mpr ⟨_, hi, hn⟩) hcustom ⟨z, hz, 8, ht⟩
  have hfirst : Feeds last.instances ⟨0, 1, 8⟩ :=
    ⟨_, hi, hg.wellFormed.hasConsumers_iff.mp (by decide +kernel)⟩
  have hsecond : Feeds last.instances ⟨0, 1, 9⟩ :=
    ⟨_, hi, hg.wellFormed.hasConsumers_iff.mp (by decide +kernel)⟩
  refine ⟨_, l₂, y, locals, hm, hl, hagrees.code_eq, hserves, fun he => ?_⟩
  exact absurd (hserves.distinct 0 (by decide) 1 (by decide) hfirst hsecond he) (by decide)

end ShaderGraph
