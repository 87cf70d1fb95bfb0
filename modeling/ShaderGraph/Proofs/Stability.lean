import ShaderGraph.Proofs.ComputedOnce

/-! Values that were answered stay. A box that is asked for again has the value that it had, and
nothing is added, unless custom code is evaluated a second time. This happens exactly if an output
of it is asked for that no box reads, after another one was computed. -/

namespace ShaderGraph

open CallTree CustomCode

/-- Whether the box is an output of custom code that is not blank. -/
def Node.isCustomOutput (node : Node) (box : BoxId) : Bool :=
  node.kind = .customCode && !Text.isBlank (((node.param? 0).bind Param.text?).getD "") &&
    (output? box).isSome

theorem Node.isCustomOutput_iff {node : Node} {box : BoxId} :
    node.isCustomOutput box = true ↔ ∃ text i, node.IsCustom text ∧ output? box = some i := by
  simp only [isCustomOutput, Bool.and_eq_true, decide_eq_true_eq, Bool.not_eq_true',
    Option.isSome_iff_exists]
  constructor
  · rintro ⟨⟨hkind, hblank⟩, i, hi⟩
    exact ⟨_, i, ⟨hkind, rfl, hblank⟩, hi⟩
  · rintro ⟨text, i, ⟨hkind, rfl, hblank⟩, hi⟩
    exact ⟨⟨hkind, hblank⟩, i, hi⟩

/-! ### Sequences of requests -/

/-- Whether the box of a request exists, if it is for an output. -/
def Request.declared (g : Graph) : Request → Bool
  | output n b => ((g.node? n).bind (·.box? b)).isSome
  | input _ _ => true

namespace Generator

variable {gen : Generator}

theorem answer_eq (gen : Generator) (request : Request) :
    (gen.answer request).2 = { gen with state := (gen.answer request).2.state } := by
  cases request <;> rfl

theorem idle_answer (h : gen.state.Idle gen.settings gen.material) (request : Request) :
    (gen.answer request).2.state.Idle (gen.answer request).2.settings
      (gen.answer request).2.material := by
  rw [answer_eq]
  exact h.runs (request.task_located h) (answer_runs h request)

theorem idle_requested (h : gen.state.Idle gen.settings gen.material) (requests : List Request) :
    (gen.after requests).state.Idle (gen.after requests).settings
      (gen.after requests).material := by
  induction requests generalizing gen with
  | nil => exact h
  | cons request requests ih => exact ih (idle_answer h request)

theorem requested_cons (h : gen.state.Idle gen.settings gen.material) (request : Request)
    (requests : List Request) :
    gen.requested (request :: requests) =
      gen.requestStep request gen.state :: (gen.answer request).2.requested requests := by
  obtain ⟨-, hresume⟩ := requestStep_from h request
  rw [requested, List.map_cons, Evaluation.sequence, hresume, answer_eq gen request]
  rfl

theorem requested_append (h : gen.state.Idle gen.settings gen.material)
    (requests requests' : List Request) :
    gen.requested (requests ++ requests') =
      gen.requested requests ++ (gen.after requests).requested requests' := by
  induction requests generalizing gen with
  | nil => rfl
  | cons request requests ih =>
    rw [List.cons_append, requested_cons h, requested_cons h, ih (idle_answer h request)]
    rfl

/-- Whether a request leaves alone what was computed before. An output of custom code that no box
reads does so only if no other output of the node was computed. -/
def admits (gen : Generator) : Request → Bool
  | .output n b => (gen.material.node? n).all fun node =>
      !node.isCustomOutput b || gen.material.hasConsumers n b ||
        (gen.state.computedAt (0, n)).all fun key => key.box = b || !node.isCustomOutput key.box
  | .input _ _ => true

/-- Whether all requests do, one after the other. -/
def admitsAll (gen : Generator) : List Request → Bool
  | [] => true
  | request :: requests => gen.admits request && (gen.answer request).2.admitsAll requests

theorem admitsAll_append (gen : Generator) (requests requests' : List Request) :
    gen.admitsAll (requests ++ requests') =
      (gen.admitsAll requests && (gen.after requests).admitsAll requests') := by
  induction requests generalizing gen with
  | nil => rfl
  | cons request requests ih =>
    rw [List.cons_append, admitsAll, admitsAll, ih, Bool.and_assoc]
    rfl

/-- The first request that is not admitted. -/
theorem exists_refused {requests : List Request} (h : gen.admitsAll requests = false) :
    ∃ pre request post, requests = pre ++ request :: post ∧ gen.admitsAll pre = true ∧
      (gen.after pre).admits request = false := by
  induction requests generalizing gen with
  | nil => cases h
  | cons request requests ih =>
    cases ha : gen.admits request with
    | false => exact ⟨[], request, requests, rfl, rfl, ha⟩
    | true =>
      rw [admitsAll, ha, Bool.true_and] at h
      obtain ⟨pre, request', post, rfl, hpre, hrefused⟩ := ih h
      refine ⟨request :: pre, request', post, rfl, ?_, hrefused⟩
      rw [admitsAll, ha, hpre]
      rfl

/-! ### The material graph -/

variable {g : Graph} {table : List Instance} {key : BoxKey} {n : Nat} {b : BoxId}

theorem customOutput_root (hroot : table[0]? = some ⟨g, none⟩) {node : Node}
    (hn : g.node? n = some node) (hp : key.place = (0, n)) :
    CustomOutput table key ↔ node.isCustomOutput key.box = true := by
  obtain ⟨hgraph, hnode⟩ := Prod.mk.inj hp
  have hsame : node? table key.graph key.node = some node := by
    rw [hgraph, hnode]
    exact Option.bind_eq_some_iff.mpr ⟨_, hroot, hn⟩
  rw [Node.isCustomOutput_iff]
  constructor
  · rintro ⟨node', text, i, hn', hrest⟩
    obtain rfl := Option.some.inj (hsame.symm.trans hn')
    exact ⟨text, i, hrest⟩
  · rintro ⟨text, i, hrest⟩
    exact ⟨node, text, i, hsame, hrest⟩

theorem feeds_root (hroot : table[0]? = some ⟨g, none⟩) (hw : g.WellFormed) :
    Feeds table ⟨0, n, b⟩ ↔ g.hasConsumers n b = true := by
  rw [hw.hasConsumers_iff]
  constructor
  · rintro ⟨inst, hi, hf⟩
    obtain rfl := Option.some.inj (hroot.symm.trans hi)
    exact hf
  · exact fun hf => ⟨_, hroot, hf⟩

theorem admits_output_iff (hroot : table[0]? = some ⟨gen.material, none⟩)
    (hw : gen.material.WellFormed) :
    gen.admits (.output n b) = true ↔ (CustomOutput table ⟨0, n, b⟩ → Feeds table ⟨0, n, b⟩ ∨
      ∀ key ∈ gen.state.computedAt (0, n), CustomOutput table key → key = ⟨0, n, b⟩) := by
  rw [admits]
  cases hn : gen.material.node? n with
  | none =>
    refine iff_of_true rfl fun ⟨node, _, _, hnode, _⟩ => ?_
    obtain ⟨inst, hi, hnode⟩ := Option.bind_eq_some_iff.mp hnode
    obtain rfl := Option.some.inj (hroot.symm.trans hi)
    cases hn.symm.trans hnode
  | some node =>
    have hbox : ∀ key ∈ gen.state.computedAt (0, n), (key = ⟨0, n, b⟩ ↔ key.box = b) := by
      intro key hk
      refine ⟨fun he => he ▸ rfl, fun he => ?_⟩
      exact BoxKey.eq_of_place (State.mem_computedAt.mp hk).2 he
    have hall : ((gen.state.computedAt (0, n)).all fun key =>
        key.box = b || !node.isCustomOutput key.box) = true ↔
        ∀ key ∈ gen.state.computedAt (0, n), CustomOutput table key → key = ⟨0, n, b⟩ := by
      rw [List.all_eq_true]
      refine forall₂_congr fun key hk => ?_
      rw [hbox key hk, customOutput_root hroot hn (State.mem_computedAt.mp hk).2]
      cases node.isCustomOutput key.box <;> simp
    rw [Option.all_some, ← hall, feeds_root hroot hw, customOutput_root hroot hn rfl]
    cases node.isCustomOutput b <;> simp

/-! ### Answers that stay -/

theorem isSome_box?_of_declared {settings : Settings} {s : State} (h : s.Idle settings g)
    (hb : (Request.output n b).declared g = true) : (s.box? ⟨0, n, b⟩).isSome := by
  obtain ⟨box, hbox⟩ := Option.isSome_iff_exists.mp hb
  obtain ⟨node, hn, hbox⟩ := Option.bind_eq_some_iff.mp hbox
  have hnode : node? s.instances 0 n = some node :=
    Option.bind_eq_some_iff.mpr ⟨_, h.sound.tree.root, hn⟩
  rw [State.box?_eq, hnode, Option.bind_some, hbox]
  rfl

/-- If all requests are admitted, they are for boxes that may be asked for. -/
theorem admits_requested {requests : List Request} (h : gen.state.Idle gen.settings gen.material)
    (hroot : table[0]? = some ⟨gen.material, none⟩) (hw : gen.material.WellFormed)
    (hb : ∀ request ∈ requests, request.declared gen.material = true)
    (hadm : gen.admitsAll requests = true) :
    ∀ x ∈ gen.requested requests, ∀ key, x.task = .box key → x.before.Admits table key := by
  induction requests generalizing gen with
  | nil => simp [requested, Evaluation.sequence]
  | cons request requests ih =>
    rw [admitsAll, Bool.and_eq_true] at hadm
    have hanswer := gen.answer_eq request
    rw [requested_cons h]
    refine List.forall_mem_cons.mpr ⟨fun key hk => ?_, ?_⟩
    · cases request with
      | output n b =>
        cases hk
        exact ⟨isSome_box?_of_declared h (hb _ List.mem_cons_self),
          (admits_output_iff hroot hw).mp hadm.1⟩
      | input n b => cases hk
    · refine ih (idle_answer h request) ?_ ?_ (fun request hmem => ?_) hadm.2
      · rw [hanswer]
        exact hroot
      · rw [hanswer]
        exact hw
      · rw [hanswer]
        exact hb request (List.mem_cons_of_mem _ hmem)

/-- A generator at the beginning of a stage whose graphs are all well formed. -/
structure Ready (gen : Generator) : Prop where
  idle : gen.state.Idle gen.settings gen.material
  memory : gen.state.memory = []
  computed : gen.state.computed = []
  material : gen.material.WellFormed
  functions : ∀ f ∈ Engine.functions gen.settings.resolver, f.graph.WellFormed

namespace Ready

variable {requests pre mid : List Request} {l : List Evaluation}

/-- The graphs after a number of requests. -/
theorem tree (h : gen.Ready) (requests : List Request) :
    (gen.after requests).state.instances[0]? = some ⟨gen.material, none⟩ ∧
      WellFormed (gen.after requests).state.instances := by
  have hidle := (requested_succession h.idle requests).idle
  exact ⟨hidle.sound.tree.root, hidle.sound.tree.wellFormed h.material h.functions⟩

theorem passage (h : gen.Ready) (hb : ∀ request ∈ requests, request.declared gen.material = true)
    (hadm : gen.admitsAll requests = true) (hl : Courses gen.settings (gen.requested requests) l)
    (p : Nat × Nat) :
    Passage gen.settings (gen.after requests).state.instances p gen.state l
      (gen.after requests).state := by
  obtain ⟨hroot, hw⟩ := h.tree requests
  refine (requested_succession h.idle requests).passage hl hw (List.prefix_refl _)
    (State.settled_of_nil h.memory h.computed) fun x hx key hk _ => ?_
  exact admits_requested h.idle hroot h.material hb hadm x hx key hk

/-- A box that was asked for has the same value when it is asked for again, and nothing changes. -/
theorem evaluateOutput_again (h : gen.Ready)
    (hb : ∀ request ∈ pre ++ .output n b :: mid, request.declared gen.material = true)
    (hadm : gen.admitsAll (pre ++ .output n b :: mid) = true) :
    (gen.after (pre ++ .output n b :: mid)).evaluateOutput n b =
      (((gen.after pre).evaluateOutput n b).1, gen.after (pre ++ .output n b :: mid)) := by
  obtain ⟨l, hl⟩ := (requested_succession h.idle (pre ++ .output n b :: mid)).courses
  have hidle := idle_requested h.idle pre
  have hx : (gen.after pre).requestStep (.output n b) (gen.after pre).state ∈
      gen.requested (pre ++ .output n b :: mid) := by
    rw [requested_append h.idle, requested_cons hidle]
    exact List.mem_append_right _ List.mem_cons_self
  have hactive : (0, n) ∉ (gen.after pre).state.active := by
    rw [hidle.active]
    exact List.not_mem_nil
  have hm := (h.passage hb hadm hl (0, n)).agree _ (hl.subset hx) ⟨0, n, b⟩ rfl rfl hactive
  -- the value is remembered, and evaluation gives what is remembered
  have hrun := answer_runs (idle_requested h.idle (pre ++ .output n b :: mid)) (.output n b)
  obtain ⟨hvalue, hstate⟩ := hrun.unique (.leaf (.remembered hm))
  have hanswer := answer_eq (gen.after (pre ++ .output n b :: mid)) (.output n b)
  rw [hstate] at hanswer
  exact Prod.ext hvalue hanswer

theorem length_blocksAt_le (h : gen.Ready)
    (hb : ∀ request ∈ requests, request.declared gen.material = true)
    (hadm : gen.admitsAll requests = true) (hl : Courses gen.settings (gen.requested requests) l)
    (p : Nat × Nat) : (blocksAt p l).length ≤ 1 := by
  rcases (h.passage hb hadm hl p).blocks with ⟨hnone, -⟩ | ⟨-, -, _, _, _, _, _, _, hw⟩
  · rw [hnone]
    exact Nat.zero_le 1
  · rw [hw.only]
    exact Nat.le_refl 1

end Ready

end Generator

/-! ### Custom code that is evaluated again -/

/-- An output of custom code that is not remembered is computed, and a block is written. -/
theorem Course.block_of_custom {settings : Settings} {table : List Instance} {key : BoxKey}
    {s s' : State} {v : Value Local} {l : List Evaluation}
    (h : Course settings ⟨.box key, s, v, s'⟩ l) (ht : s.instances <+: table)
    (hc : CustomOutput table key) (hb : (s.box? key).isSome) (hm : s.remembered? key = none)
    (ha : s.active = []) : ∃ y, blocksAt key.place l = [y] := by
  cases h with
  | leaf h =>
    have hactive : key.place ∉ s.active := by
      rw [ha]
      exact List.not_mem_nil
    have hvalue := h.value_remembered rfl hb hactive
    have hsame : s'.remembered? key = s.remembered? key := (h.sameAt key.place).memory key rfl
    cases hvalue.symm.trans (hsame.trans hm)
  | @unary _ y l h hy =>
    cases h with
    | @dispatched _ _ site _ s₁ hm hs hact =>
      obtain rfl := State.key_of_site? hs
      obtain ⟨text, i, hcustom, hi⟩ := (holds_of_site? ht hs).customOutput_iff.mp hc
      obtain ⟨y, _, _, hy, -⟩ := hy.of_custom hcustom hi List.mem_cons_self
      have hspares : (Task.box site.key).Spares site.key.place := trivial
      exact ⟨y, (blocksAt_cons_of_spares hspares l).trans hy.only⟩
  | binary h => cases h

namespace Generator.Ready

variable {gen : Generator} {requests pre post : List Request} {request : Request}
  {l : List Evaluation}

/-- A request that is not admitted makes custom code write a second block. -/
theorem exists_two_blocks (h : gen.Ready)
    (hb : ∀ r ∈ pre ++ request :: post, r.declared gen.material = true)
    (hadm : gen.admitsAll pre = true) (hrefused : (gen.after pre).admits request = false)
    (hl : Courses gen.settings (gen.requested (pre ++ request :: post)) l) :
    ∃ p, 2 ≤ (blocksAt p l).length := by
  have hidle := idle_requested h.idle pre
  obtain ⟨hsettings, hmaterial, -⟩ := after_induction (fun _ => True) (fun _ _ _ _ _ _ h => h)
    h.idle trivial pre
  rw [requested_append h.idle, requested_cons hidle] at hl
  obtain ⟨l₁, l', rfl, hl₁, hl'⟩ := hl.of_append
  cases hl' with
  | @cons _ _ l₂ l₃ hx _ =>
    obtain ⟨hroot, hw⟩ := h.tree pre
    cases request with
    | input n b => cases hrefused
    | output n b =>
      have hnot := mt (admits_output_iff (hmaterial ▸ hroot) (hmaterial ▸ h.material)).mpr
        (Bool.eq_false_iff.mp hrefused)
      push Not at hnot
      obtain ⟨hc, hunread, key, hk, hck, hne⟩ := hnot
      have hpass := h.passage (fun r hr => hb r (List.mem_append_left _ hr)) hadm hl₁ (0, n)
      rcases hpass.blocks with ⟨-, hold⟩ | ⟨-, -, _, _, _, _, y, _, hw⟩
      · have hbefore := hold key hk hck
        rw [State.computedAt, h.computed] at hbefore
        cases hbefore
      · -- the first block was for another output, so this one is not remembered
        have hm := hpass.settled.unread key hk hck ⟨0, n, b⟩ rfl hc hunread hne.symm
        have hbox := isSome_box?_of_declared hidle
          (hmaterial ▸ hb (.output n b) (List.mem_append_right _ List.mem_cons_self))
        obtain ⟨y', hy'⟩ := hx.block_of_custom (List.prefix_refl _) hc hbox hm hidle.active
        refine ⟨(0, n), ?_⟩
        have hsecond : blocksAt (0, n) l₂ = [y'] := hy'
        rw [blocksAt_append, blocksAt_append, hw.only, hsecond]
        simp

end Generator.Ready

/-! ### Stability -/

/-- Whenever a box was asked for and is asked for again, it has the same value, and nothing is added
to the state. No custom code writes two blocks. -/
structure Generator.Stable (gen : Generator) (requests : List Request) (l : List Evaluation) :
    Prop where
  values : ∀ pre n b mid, pre ++ .output n b :: mid <+: requests →
    (gen.after (pre ++ .output n b :: mid)).evaluateOutput n b =
      (((gen.after pre).evaluateOutput n b).1, gen.after (pre ++ .output n b :: mid))
  blocks : ∀ p, (blocksAt p l).length ≤ 1

/-- The values of the boxes that a generator is asked for are stable exactly if no output of custom
code that no box reads is asked for after another one was computed. -/
theorem stable_iff_admitted (g : Graph) (domain : Domain) (resolver : Resolver) (config : Config)
    (requests : List Request) (hg : g.Built) (hf : ∀ f ∈ Engine.functions resolver, f.graph.Built)
    (hb : ∀ request ∈ requests, request.declared g = true) :
    let gen := (Generator.new g domain resolver).withConfig config
    ∃ l, Courses gen.settings (gen.requested requests) l ∧
      (gen.after requests).state.writer.statements = l.flatMap (·.written gen.settings) ∧
      (gen.Stable requests l ↔ gen.admitsAll requests = true) := by
  intro gen
  have hready : gen.Ready :=
    ⟨(Generator.idle_after g domain resolver config []).2.2, rfl, rfl, hg.wellFormed,
      fun f hmem => (hf f hmem).wellFormed⟩
  have hrun := Generator.requested_succession hready.idle requests
  obtain ⟨l, hl⟩ := hrun.courses
  refine ⟨l, hl, hrun.statements hl, fun hstable => ?_, fun hadm => ⟨?_, ?_⟩⟩
  · by_contra hrefused
    obtain ⟨pre, request, post, rfl, hpre, hrequest⟩ :=
      Generator.exists_refused (Bool.eq_false_iff.mpr hrefused)
    obtain ⟨p, hp⟩ := hready.exists_two_blocks hb hpre hrequest hl
    exact absurd (hstable.blocks p) (Nat.not_le.mpr hp)
  · rintro pre n b mid ⟨post, rfl⟩
    rw [Generator.admitsAll_append, Bool.and_eq_true] at hadm
    exact hready.evaluateOutput_again (fun r hr => hb r (List.mem_append_left _ hr)) hadm.1
  · exact hready.length_blocksAt_le hb hadm hl

/-- An output that no box reads is asked for before those that are read, and again later. -/
theorem unread_output_first_stable :
    let gen := (Generator.new sharing .surface ⟨[⟨[.loaded doubling]⟩]⟩).withConfig {}
    let requests := [.output 1 10, .output 2 16, .output 1 8, .input 0 0, .output 1 10]
    ∃ l, Courses gen.settings (gen.requested requests) l ∧ gen.Stable requests l := by
  obtain ⟨l, hl, -, hiff⟩ := stable_iff_admitted sharing .surface ⟨[⟨[.loaded doubling]⟩]⟩ {}
    [.output 1 10, .output 2 16, .output 1 8, .input 0 0, .output 1 10] ⟨_, rfl⟩
    (List.forall_mem_singleton.mpr doubling_built) (List.all_eq_true.mp (by decide +kernel))
  exact ⟨l, hl, hiff.mpr (by decide +kernel)⟩

/-- Custom code with an output that is read and others that are not. -/
def partlyRead : Graph :=
  .build [.add .customCode [.text "Output0 = 1;"], .add .abs [], .connect 0 8 1 0]

/-- An output that no box reads is asked for after the one that is read: the custom code is written
again, and the one that is read has another value from then on. -/
theorem unread_output_later_unstable :
    let gen := (Generator.new partlyRead .surface ⟨[]⟩).withConfig {}
    let later := gen.after [.output 0 8, .output 0 9]
    partlyRead.Built ∧ [.output 0 8, .output 0 9].all (Request.declared partlyRead) = true ∧
      (gen.evaluateOutput 0 8).1 = .expr .float4 [.ref 0] ∧
      (later.evaluateOutput 0 8).1 = .expr .float4 [.ref 1] ∧
      later.state.writer.statements =
        [.declare 0 .float4 (Value.zero .float4).code,
          .block (.ref 0 :: Code.ofString " = 1;"),
          .declare 1 .float4 (Value.zero .float4).code,
          .block (.ref 1 :: Code.ofString " = 1;")] := by
  refine ⟨⟨_, rfl⟩, ?_, ?_, ?_, ?_⟩
  · decide +kernel
  · decide +kernel
  · decide +kernel
  · decide +kernel

end ShaderGraph
