import ShaderGraph.Proofs.Balance
import ShaderGraph.Proofs.Readers
import ShaderGraph.Proofs.RecursionGuard

/-! Interpolant slots. Only nodes that interpolate claim slots, and only in the pixel stage. There a
node is asked for its value once, before anything is remembered of it, and gets a slot of its own
then or never; so the slots and what is remembered of these nodes agree throughout the stage. -/

namespace ShaderGraph

open CallTree

/-! ### Recipes that claim no slot -/

namespace Recipe

variable {ρ α β : Type}

/-- The recipe claims no slot, whatever answers it gets. -/
inductive Claimless : Recipe ρ α → Prop
  | done (a : α) : Claimless (.done a)
  | operand {box next} (h : ∀ v, Claimless (next v)) : Claimless (.operand box next)
  | declare {type init next} (h : ∀ v, Claimless (next v)) : Claimless (.declare type init next)
  | block {body next} (h : Claimless next) : Claimless (.block body next)
  | comment {text next} (h : Claimless next) : Claimless (.comment text next)
  | report {cause next} (h : Claimless next) : Claimless (.report cause next)
  | use {feature next} (h : Claimless next) : Claimless (.use feature next)
  | sample {texture next} (h : Claimless next) : Claimless (.sample texture next)
  | remember {box value next} (h : Claimless next) : Claimless (.remember box value next)

theorem Claimless.bind {r : Recipe ρ α} {f : α → Recipe ρ β} (h : r.Claimless)
    (hf : ∀ a, (f a).Claimless) : (r >>= f).Claimless := by
  change (r.bind f).Claimless
  induction h with
  | done a => exact hf a
  | operand _ ih => exact .operand ih
  | declare _ ih => exact .declare ih
  | block _ ih => exact .block ih
  | comment _ ih => exact .comment ih
  | report _ ih => exact .report ih
  | use _ ih => exact .use ih
  | sample _ ih => exact .sample ih
  | remember _ ih => exact .remember ih

theorem Claimless.answer {box : BoxId} {next : Option (Value ρ) → Recipe ρ α}
    (h : (Recipe.operand box next).Claimless) (v : Option (Value ρ)) : (next v).Claimless := by
  cases h with
  | operand h => exact h v

theorem Silent.claimless {r : Recipe ρ α} (h : r.Silent) : r.Claimless := by
  induction h with
  | done a => exact .done a
  | operand _ ih => exact .operand ih
  | report _ ih => exact .report ih
  | use _ ih => exact .use ih

theorem Related.claimless {Q : Nat → α → α → Prop} {n : Nat} {r r' : Recipe Local α}
    (h : r.Related CodeRelation.effectless Q n r') : r.Claimless := by
  induction h with
  | done => exact .done _
  | operand _ ih =>
    refine .operand fun v => ih _ v v (Nat.le_refl _) ?_
    cases v with
    | none => exact .none
    | some v => exact .some (CodeRelation.effectless_refl _ v)
  | declare _ _ ih => exact .declare fun v => ih v v (CodeRelation.effectless_refl _ v)
  | comment _ ih => exact .comment ih
  | report _ _ ih => exact .report ih
  | use _ ih => exact .use ih
  | sample _ ih => exact .sample ih
  | block he | remember he | claim he => exact he.elim

theorem claimless_rememberOutputs {next : Recipe ρ α} (h : next.Claimless)
    (outputs : List (Option (Value ρ))) (i : Nat) : (rememberOutputs next outputs i).Claimless := by
  induction outputs generalizing i with
  | nil => exact h
  | cons v outputs ih => exact .remember (ih (i + 1))

/-- Custom code claims no slot. -/
theorem claimless_customCode {site : Site} {text : String} {i : Nat}
    (hc : site.node.IsCustom text) (hi : CustomCode.output? site.box = some i) :
    (customCode site : Recipe Local _).Claimless := by
  rw [customCode_eq hc hi]
  refine .use ((Related.customOutputs (n := 0) site).claimless.bind fun outputs => ?_)
  refine (Related.customInputs (n := 0)).claimless.bind fun inputs => ?_
  exact .comment (.block (claimless_rememberOutputs (.done _) outputs 0))

end Recipe

/-- Only nodes that interpolate claim slots, and only in the pixel stage. -/
theorem Site.recipe_claimless {site : Site} {stage : Stage}
    (h : site.node.kind = .interpolateVsToPs → stage = .vertex) (domain : Domain) :
    (site.recipe domain stage : Recipe Local _).Claimless := by
  by_cases hpure : site.node.kind.isPure = true
  · exact (site.recipe_related CodeRelation.effectless 0 domain stage
      (fun he => by simp [he] at hpure) fun _ _ => .inr trivial).claimless
  · cases hk : site.node.kind with
    | customCode =>
      by_cases hw : ∃ text i, site.node.IsCustom text ∧ CustomCode.output? site.box = some i
      · obtain ⟨text, i, hc, hi⟩ := hw
        unfold Site.recipe
        rw [hk]
        exact Recipe.claimless_customCode hc hi
      · have hsilent : (site.recipe domain stage : Recipe Local _).Silent :=
          by_contra fun hs => hw (Site.Writes.custom ⟨domain, stage, hs⟩ hk)
        exact hsilent.claimless
    | interpolateVsToPs =>
      obtain rfl := h hk
      unfold Site.recipe
      rw [hk]
      exact (Recipe.silent_operandOr 0 _).claimless.bind
        fun v => (Recipe.silent_castTo _ v).claimless
    | _ => simp [hk, NodeKind.isPure] at hpure

/-! ### What is claimed -/

namespace State

theorem report_slots (s : State) (key : BoxKey) (cause : Cause) :
    (s.report key cause).slots = s.slots := by
  unfold report
  dsimp only
  split <;> rfl

theorem remember_slots (s : State) (key : BoxKey) (value : Option (Value Local)) :
    (s.remember key value).slots = s.slots := by
  obtain ⟨memory, hr⟩ := s.remember_eq key value
  rw [hr]

theorem sample_slots (s : State) (texture : SceneTexture) : (s.sample texture).slots = s.slots := by
  unfold sample
  split <;> rfl

theorem instantiate_slots (s : State) (site : Site) (function : MaterialFunction) :
    (s.instantiate site function).2.slots = s.slots := by
  unfold instantiate
  split <;> rfl

theorem finish_slots (s : State) (key : BoxKey) (v : Value Local) :
    (s.finish key v).slots = s.slots := by
  obtain ⟨memory, hf⟩ := s.finish_eq key v
  rw [hf]

theorem made_slots {s s' : State} {site : Site} {function : MaterialFunction} {graph : Nat}
    (h : (s.ask site.node.callee).instantiate site function = (graph, s')) :
    s'.slots = s.slots := by
  have hslots := instantiate_slots (s.ask site.node.callee) site function
  rwa [h] at hslots

/-- Slots are only ever added, no more than there are, and none in a domain without them. -/
structure AddsSlots (settings : Settings) (s s' : State) : Prop where
  slots : s.slots <+: s'.slots
  bounded : s.slots.length ≤ settings.slotLimit → s'.slots.length ≤ settings.slotLimit
  unsupported : settings.domain.supportsInterpolants = false → s'.slots = s.slots

theorem AddsSlots.of_eq {settings : Settings} {s s' : State} (h : s'.slots = s.slots) :
    s.AddsSlots settings s' :=
  ⟨h ▸ List.prefix_refl _, fun hle => h ▸ hle, fun _ => h⟩

theorem stepwise_addsSlots (settings : Settings) :
    Stepwise settings (AddsSlots settings) where
  refl _ := .of_eq rfl
  trans h h' := ⟨h.slots.trans h'.slots, fun hle => h'.bounded (h.bounded hle),
    fun hu => (h'.unsupported hu).trans (h.unsupported hu)⟩
  context _ _ := .of_eq rfl
  active _ _ := .of_eq rfl
  loads _ _ := .of_eq rfl
  record _ _ := .of_eq rfl
  use _ _ := .of_eq rfl
  push _ _ := .of_eq rfl
  report s key cause := .of_eq (s.report_slots key cause)
  sample s texture := .of_eq (s.sample_slots texture)
  remember s key value := .of_eq (s.remember_slots key value)
  claim s key input := by
    unfold State.claim
    split
    · exact .of_eq rfl
    · split
      · exact .of_eq rfl
      · next hfull hdomain =>
        refine ⟨List.prefix_append _ _, fun _ => ?_, fun hu => absurd hu (by simpa using hdomain)⟩
        rw [List.length_append, List.length_singleton]
        omega
  instantiate s site function := .of_eq (s.instantiate_slots site function)

end State

theorem Recipe.Claimless.effect {settings : Settings} {key : BoxKey} {s s' : State}
    {r r' : Recipe Local (Value Local)} (h : r.Claimless)
    (he : r.effect? settings key s = some (r', s')) : r'.Claimless ∧ s'.slots = s.slots := by
  cases h with
  | done | operand => cases he
  | declare h =>
    cases he
    exact ⟨h _, rfl⟩
  | block h =>
    cases he
    exact ⟨h, rfl⟩
  | comment h =>
    cases he
    refine ⟨h, ?_⟩
    split <;> rfl
  | report h =>
    cases he
    exact ⟨h, s.report_slots key _⟩
  | use h =>
    cases he
    exact ⟨h, rfl⟩
  | sample h =>
    cases he
    exact ⟨h, s.sample_slots _⟩
  | remember h =>
    cases he
    exact ⟨h, s.remember_slots _ _⟩

/-- The task itself claims no slot in a stage. -/
def Task.Claimless (stage : Stage) : Task → Prop
  | box _ => True
  | node site => site.node.kind = .interpolateVsToPs → stage = .vertex
  | recipe _ r => r.Claimless

theorem Task.IsTop.claimless {t : Task} (h : t.IsTop) (stage : Stage) : t.Claimless stage := by
  cases h with
  | box => trivial
  | recipe h => exact h.claimless

section

variable {settings : Settings} {g : Graph} {stage : Stage} {x y z : Evaluation} {s s' : State}
  {xs l : List Evaluation}

namespace Evaluation

/-- Without other evaluations no slot is claimed. -/
theorem Needs.slots (h : x.Needs settings []) : x.after.slots = x.before.slots := by
  cases h with
  | remembered | absent | done => rfl
  | reentered | outside | undeclared | notLoaded | recursive => exact State.report_slots _ _ _
  | unlisted _ _ _ hi => exact (State.report_slots _ _ _).trans (State.made_slots hi)
  | unfed _ _ _ hi => exact State.made_slots hi

/-- Before and after the evaluation that is needed no slot is claimed. -/
theorem Needs.slots_unary (h : x.Needs settings [y]) (hx : x.task.Claimless x.before.stage)
    (hd : ∀ site, y.task = .node site → y.task.Claimless x.before.stage) :
    y.before.slots = x.before.slots ∧ x.after.slots = y.after.slots ∧
      y.before.stage = x.before.stage ∧ y.task.Claimless x.before.stage := by
  cases h with
  | dispatched => exact ⟨rfl, State.finish_slots _ _ _, rfl, hd _ rfl⟩
  | @plain site => exact ⟨rfl, rfl, rfl, Site.recipe_claimless hx settings.domain⟩
  | @called _ s _ _ _ _ _ _ _ _ _ _ hi =>
    have hslots := State.made_slots hi
    exact ⟨hslots, rfl, (s.grows_made hi).stage, trivial⟩
  | passed => exact ⟨rfl, rfl, rfl, trivial⟩
  | defaulted => exact ⟨rfl, rfl, rfl, (Recipe.silent_operandOrParam _ _ _).claimless⟩
  | unconnected => exact ⟨rfl, rfl, rfl, Recipe.Claimless.answer hx none⟩
  | effect he =>
    obtain ⟨hr, hslots⟩ := Recipe.Claimless.effect hx he
    exact ⟨hslots, rfl, (State.grows_effect _ he).stage, hr⟩

theorem Needs.slots_binary (h : x.Needs settings [y, z]) (hx : x.task.Claimless stage) :
    y.before = x.before ∧ z.before = y.after ∧ x.after = z.after ∧ y.task.Claimless stage ∧
      z.task.Claimless stage := by
  cases h with
  | connected => exact ⟨rfl, rfl, rfl, trivial, Recipe.Claimless.answer hx _⟩

end Evaluation

/-- In the vertex stage no slot is claimed. -/
theorem Course.slots_of_vertex (h : Course settings x l) (hstage : x.before.stage = .vertex)
    (hx : x.task.Claimless .vertex) :
    ∀ y ∈ l, y.before.slots = x.before.slots ∧ y.after.slots = x.before.slots := by
  induction h with
  | leaf h => simpa using h.slots
  | @unary x y l h hy ih =>
    obtain ⟨hopen, hclose, hstage', htask⟩ :=
      h.slots_unary (hstage ▸ hx) fun site hs => by rw [hs]; exact fun _ => hstage
    have hmem := ih (hstage'.trans hstage) (hstage ▸ htask)
    rw [hopen] at hmem
    refine List.forall_mem_cons.mpr ⟨⟨rfl, ?_⟩, hmem⟩
    rw [hclose]
    exact (hmem y hy.self_mem).2
  | @binary x y z l l' h hy hz ihy ihz =>
    obtain ⟨hb, hm, he, hty, htz⟩ := h.slots_binary hx
    have hy' := ihy (hb ▸ hstage) hty
    have hstage' : z.before.stage = .vertex := by
      rw [hm, hy.runs.grows.stage, hb]
      exact hstage
    have hz' := ihz hstage' htz
    rw [hm, (hy' y hy.self_mem).2, hb] at hz'
    rw [hb] at hy'
    refine List.forall_mem_cons.mpr ⟨⟨rfl, ?_⟩, List.forall_mem_append.mpr ⟨hy', hz'⟩⟩
    rw [he]
    exact (hz' z hz.self_mem).2

theorem Succession.slots_of_vertex (h : Succession settings g s xs s') (hl : Courses settings xs l)
    (hstage : s.stage = .vertex) :
    s'.slots = s.slots ∧ ∀ y ∈ l, y.before.slots = s.slots ∧ y.after.slots = s.slots := by
  induction h generalizing l with
  | nil =>
    cases hl
    exact ⟨rfl, by simp⟩
  | @cons s x xs s' hx _ ih =>
    cases hl with
    | cons hc hcs =>
      obtain ⟨c, hbefore⟩ := hx.before
      have hstage' : x.before.stage = .vertex := by rw [hbefore, ← hstage]
      have hfirst := hc.slots_of_vertex hstage' (hx.top.claimless .vertex)
      have hslots : x.before.slots = s.slots := by rw [hbefore]
      rw [hslots] at hfirst
      have hresume : (s.resume x).slots = s.slots := (hfirst x hc.self_mem).2
      obtain ⟨hend, hrest⟩ := ih hcs (hx.runs.grows.stage.trans hstage')
      rw [hresume] at hend hrest
      exact ⟨hend, List.forall_mem_append.mpr ⟨hfirst, hrest⟩⟩

end

/-! ### Nodes that interpolate -/

/-- What the pixel stage reads from a slot. -/
def slotRead (n : Nat) : Value Local := .expr .float4 s!"input.CustomVSToPS[{n}]"

theorem slotRead_injective {m n : Nat} (h : slotRead m = slotRead n) : m = n := by
  have hcode := (Value.expr.inj h).2
  have htext := List.map_injective_iff.mpr (fun _ _ he => Atom.char.inj he) hcode
  rw [String.toList_inj] at htext
  have hrepr : m.repr = n.repr := by simpa [String.append_assoc] using htext
  calc m = Nat.ofDigitChars 10 m.repr.toList 0 := by
        rw [Nat.toList_repr, Nat.ofDigitChars_ten_toDigits]
    _ = Nat.ofDigitChars 10 n.repr.toList 0 := by rw [hrepr]
    _ = n := by rw [Nat.toList_repr, Nat.ofDigitChars_ten_toDigits]

/-- No slot is left for a node, which is reported so. -/
inductive Settings.Refuses (settings : Settings) (slots : List Slot) : Cause → Prop
  | full (h : settings.slotLimit ≤ slots.length) :
      Refuses settings slots (.capacityExceeded (.ofNat settings.slotLimit))
  | unsupported (h : settings.domain.supportsInterpolants = false) :
      Refuses settings slots .interpolantsUnsupported

theorem Settings.Refuses.mono {settings : Settings} {slots slots' : List Slot} {cause : Cause}
    (h : settings.Refuses slots cause) (hp : slots <+: slots') : settings.Refuses slots' cause := by
  cases h with
  | full h => exact .full (h.trans hp.length_le)
  | unsupported h => exact .unsupported h

/-- In the pixel stage a node that interpolates evaluates no box. It gets the next slot, or a
report. -/
theorem Course.of_interpolate {settings : Settings} {site : Site} {s s' : State} {v : Value Local}
    {l : List Evaluation} (h : Course settings ⟨.node site, s, v, s'⟩ l)
    (hk : site.node.kind = .interpolateVsToPs) (hstage : s.stage = .pixel) :
    (∀ y ∈ l, ∀ key, y.task ≠ .box key) ∧
      ((v = slotRead s.slots.length ∧
          s' = State.use
            { s with slots := s.slots ++ [⟨site.key, site.key.sibling 0, s.context⟩] }
            .interpolants) ∨
        ∃ cause, settings.Refuses s.slots cause ∧ v = .zero .float4 ∧
          s' = s.report site.key cause) := by
  obtain ⟨l₁, rfl, h₁⟩ := h.of_plain (by simp [hk]) (by simp [hk])
  have hrecipe : (site.recipe settings.domain s.stage : Recipe Local _) = .interpolate .pixel := by
    unfold Site.recipe
    rw [hk, hstage]
  rw [hrecipe] at h₁
  obtain ⟨l₂, rfl, h₂⟩ := h₁.of_effect rfl
  unfold State.claim at h₂
  split at h₂
  next hfull =>
    obtain ⟨l₃, rfl, h₃⟩ := h₂.of_effect rfl
    obtain ⟨hv, hs, rfl⟩ := h₃.of_done
    exact ⟨by simp, .inr ⟨_, .full hfull, hv, hs⟩⟩
  next =>
    split at h₂
    next hdomain =>
      obtain ⟨l₃, rfl, h₃⟩ := h₂.of_effect rfl
      obtain ⟨hv, hs, rfl⟩ := h₃.of_done
      exact ⟨by simp, .inr ⟨_, .unsupported (by simpa using hdomain), hv, hs⟩⟩
    next =>
      obtain ⟨l₃, rfl, h₃⟩ := h₂.of_effect rfl
      obtain ⟨hv, hs, rfl⟩ := h₃.of_done
      exact ⟨by simp, .inl ⟨hv, hs⟩⟩

/-! ### Slots and what is remembered -/

namespace CallTree

/-- The output of a node that interpolates. -/
structure Interpolates (table : List Instance) (key : BoxKey) : Prop where
  node : ∃ node, node? table key.graph key.node = some node ∧ node.kind = .interpolateVsToPs
  box : key.box = 1

variable {table : List Instance} {key key' : BoxKey} {node : Node} {s : State}

theorem Interpolates.eq_of_place (h : Interpolates table key) (h' : Interpolates table key')
    (hp : key.place = key'.place) : key = key' :=
  BoxKey.eq_of_place hp (h.box.trans h'.box.symm)

/-- Such a node has one output. -/
theorem Feeds.interpolates (h : Feeds table key) (hw : WellFormed table)
    (hn : node? table key.graph key.node = some node) (hk : node.kind = .interpolateVsToPs) :
    Interpolates table key := by
  have hall : NodeKind.interpolateVsToPs.outputBoxes = [1] := by decide
  have hmem := h.mem_outputBoxes hw hn
  rw [hk, hall] at hmem
  exact ⟨⟨node, hn, hk⟩, List.mem_singleton.mp hmem⟩

end CallTree

theorem State.diagnose_eq {s : State} {table : List Instance} (hp : s.instances <+: table)
    {key : BoxKey} (hk : key.graph < s.instances.length) (cause : Cause) :
    s.diagnose key cause = ({ instances := table } : State).diagnose key cause := by
  obtain ⟨rest, rfl⟩ := hp
  unfold diagnose instance?
  rw [List.getElem?_append_left hk]

theorem State.diagnose_function (s : State) (key : BoxKey) (cause : Cause) :
    (s.diagnose key cause).function =
      (CallTree.origin? s.instances key.graph).map (·.function.id) := rfl

theorem State.diagnose_node {s : State} {key : BoxKey} {node : Node}
    (h : CallTree.node? s.instances key.graph key.node = some node) (cause : Cause) :
    (s.diagnose key cause).node = node.id := by
  change ((CallTree.node? s.instances key.graph key.node).map (·.id)).getD 0 = node.id
  rw [h]
  rfl

namespace State

/-- The slots of a pixel stage and what is remembered of the nodes that interpolate. -/
structure SlotsAgree (settings : Settings) (table : List Instance) (s : State) : Prop where
  /-- Slots belong to different nodes. -/
  nodup : (s.slots.map (·.node.place)).Nodup
  claimed : ∀ slot ∈ s.slots, Interpolates table slot.node ∧ slot.input = slot.node.sibling 0 ∧
    slot.node ∈ s.computed
  /-- The node of a slot reads it. -/
  granted : ∀ n slot, s.slots[n]? = some slot → s.remembered? slot.node = some (slotRead n)
  /-- A node without a slot was refused one. -/
  refused : ∀ key v, Interpolates table key → s.remembered? key = some v →
    (∀ slot ∈ s.slots, slot.node ≠ key) → v = .zero .float4 ∧
      ∃ cause, settings.Refuses s.slots cause ∧
        ({ instances := table } : State).diagnose key cause ∈ s.diagnostics

variable {settings : Settings} {table : List Instance} {s s' : State} {key : BoxKey}

/-- Nothing is claimed, and nothing changes for the nodes that interpolate. -/
theorem SlotsAgree.of_same (h : s.SlotsAgree settings table) (hslots : s'.slots = s.slots)
    (hd : s.diagnostics <+: s'.diagnostics)
    (hsame : ∀ key, Interpolates table key → SameAt key.place s s') :
    s'.SlotsAgree settings table where
  nodup := hslots ▸ h.nodup
  claimed slot hm := by
    obtain ⟨hi, hin, hc⟩ := h.claimed slot (hslots ▸ hm)
    have hmem : slot.node ∈ s'.computedAt slot.node.place := by
      rw [(hsame _ hi).computed]
      exact mem_computedAt.mpr ⟨hc, rfl⟩
    exact ⟨hi, hin, (mem_computedAt.mp hmem).1⟩
  granted n slot hn := by
    rw [hslots] at hn
    obtain ⟨hi, -⟩ := h.claimed slot (List.mem_of_getElem? hn)
    rw [(hsame _ hi).memory _ rfl]
    exact h.granted n slot hn
  refused key v hi hm hno := by
    rw [(hsame _ hi).memory _ rfl] at hm
    rw [hslots] at hno ⊢
    obtain ⟨hv, cause, hr, hdiag⟩ := h.refused key v hi hm hno
    exact ⟨hv, cause, hr, hd.subset hdiag⟩

/-- A node of which nothing is remembered has no slot. -/
theorem SlotsAgree.node_ne (h : s.SlotsAgree settings table) (hm : s.remembered? key = none)
    (slot : Slot) (hslot : slot ∈ s.slots) : slot.node ≠ key := by
  rintro rfl
  obtain ⟨n, hn⟩ := List.getElem?_of_mem hslot
  simp [h.granted n slot hn] at hm

theorem SlotsAgree.place_ne (h : s.SlotsAgree settings table) (hi : Interpolates table key)
    (hm : s.remembered? key = none) (slot : Slot) (hslot : slot ∈ s.slots) :
    slot.node.place ≠ key.place :=
  fun hp => h.node_ne hm slot hslot ((h.claimed slot hslot).1.eq_of_place hi hp)

/-- The node gets the next slot. -/
theorem SlotsAgree.grant (h : s.SlotsAgree settings table) (hi : Interpolates table key)
    (hm : s.remembered? key = none) (context : CallContext)
    (hslots : s'.slots = s.slots ++ [⟨key, key.sibling 0, context⟩])
    (hd : s.diagnostics <+: s'.diagnostics) (hc : s'.computed = key :: s.computed)
    (hself : s'.remembered? key = some (slotRead s.slots.length))
    (hother : ∀ key', key' ≠ key → s'.remembered? key' = s.remembered? key') :
    s'.SlotsAgree settings table where
  nodup := by
    rw [hslots, List.map_append, List.nodup_append]
    refine ⟨h.nodup, List.nodup_singleton _, fun p hp q hq => ?_⟩
    obtain ⟨slot, hslot, rfl⟩ := List.mem_map.mp hp
    obtain rfl := List.mem_singleton.mp hq
    exact h.place_ne hi hm slot hslot
  claimed slot hslot := by
    rw [hslots] at hslot
    rw [hc]
    rcases List.mem_append.mp hslot with hslot | hslot
    · obtain ⟨hi', hin, hold⟩ := h.claimed slot hslot
      exact ⟨hi', hin, List.mem_cons_of_mem _ hold⟩
    · obtain rfl := List.mem_singleton.mp hslot
      exact ⟨hi, rfl, List.mem_cons_self⟩
  granted n slot hn := by
    rw [hslots] at hn
    by_cases hlt : n < s.slots.length
    · rw [List.getElem?_append_left hlt] at hn
      rw [hother _ (h.node_ne hm slot (List.mem_of_getElem? hn))]
      exact h.granted n slot hn
    · rw [List.getElem?_append_right (by omega)] at hn
      obtain ⟨hlt', hslot⟩ := List.getElem?_eq_some_iff.mp hn
      obtain rfl : n = s.slots.length := by
        rw [List.length_singleton] at hlt'
        omega
      simp only [Nat.sub_self, List.getElem_cons_zero] at hslot
      subst hslot
      exact hself
  refused key' v hi' hm' hno := by
    rw [hslots] at hno ⊢
    have hne : key' ≠ key :=
      fun he => hno _ (List.mem_append_right _ List.mem_cons_self) he.symm
    rw [hother key' hne] at hm'
    obtain ⟨hv, cause, hr, hdiag⟩ := h.refused key' v hi' hm' fun slot hslot =>
      hno slot (List.mem_append_left _ hslot)
    exact ⟨hv, cause, hr.mono (List.prefix_append _ _), hd.subset hdiag⟩

/-- The node is refused a slot. -/
theorem SlotsAgree.refuse (h : s.SlotsAgree settings table) (hm : s.remembered? key = none)
    {cause : Cause} (hr : settings.Refuses s.slots cause) (hslots : s'.slots = s.slots)
    (hd : s.diagnostics <+: s'.diagnostics) (hc : s'.computed = key :: s.computed)
    (hdiag : ({ instances := table } : State).diagnose key cause ∈ s'.diagnostics)
    (hself : s'.remembered? key = some (.zero .float4))
    (hother : ∀ key', key' ≠ key → s'.remembered? key' = s.remembered? key') :
    s'.SlotsAgree settings table where
  nodup := hslots ▸ h.nodup
  claimed slot hslot := by
    obtain ⟨hi, hin, hold⟩ := h.claimed slot (hslots ▸ hslot)
    exact ⟨hi, hin, hc ▸ List.mem_cons_of_mem _ hold⟩
  granted n slot hn := by
    rw [hslots] at hn
    rw [hother _ (h.node_ne hm slot (List.mem_of_getElem? hn))]
    exact h.granted n slot hn
  refused key' v hi' hm' hno := by
    rw [hslots] at hno ⊢
    by_cases he : key' = key
    · subst he
      rw [hself] at hm'
      exact ⟨(Option.some.inj hm').symm, cause, hr, hdiag⟩
    · rw [hother key' he] at hm'
      obtain ⟨hv, cause', hr', hdiag'⟩ := h.refused key' v hi' hm' hno
      exact ⟨hv, cause', hr', hd.subset hdiag'⟩

/-- A node reads the slot that it has, and no other one. -/
theorem SlotsAgree.read_iff (h : s.SlotsAgree settings table) (hi : Interpolates table key)
    {v : Value Local} (hm : s.remembered? key = some v) (n : Nat) :
    v = slotRead n ↔ ∃ slot, s.slots[n]? = some slot ∧ slot.node.place = key.place := by
  constructor
  · rintro rfl
    by_cases hno : ∀ slot ∈ s.slots, slot.node ≠ key
    · obtain ⟨hv, -⟩ := h.refused key _ hi hm hno
      cases hv
    · push Not at hno
      obtain ⟨slot, hslot, rfl⟩ := hno
      obtain ⟨k, hk⟩ := List.getElem?_of_mem hslot
      have hread := Option.some.inj ((h.granted k slot hk).symm.trans hm)
      obtain rfl := slotRead_injective hread
      exact ⟨slot, hk, rfl⟩
  · rintro ⟨slot, hn, hp⟩
    obtain rfl := (h.claimed slot (List.mem_of_getElem? hn)).1.eq_of_place hi hp
    exact Option.some.inj (hm.symm.trans (h.granted n slot hn))

theorem slotsAgree_of_nil (hslots : s.slots = []) (hm : s.memory = []) :
    s.SlotsAgree settings table := by
  refine ⟨?_, ?_, ?_, fun key v _ hk => ?_⟩
  · simp [hslots]
  · simp [hslots]
  · simp [hslots]
  · simp [remembered?, hm] at hk

end State

/-! ### The pixel stage -/

section

variable {settings : Settings} {g : Graph} {table : List Instance} {p : Nat × Nat}
  {x y : Evaluation} {s s' : State} {xs l : List Evaluation}

/-- Slots and memory agree after a node that interpolates is asked for its value. -/
theorem State.SlotsAgree.dispatched {site : Site} {v : Value Local}
    (h : s.SlotsAgree settings table) (hw : WellFormed table) (hstage : s.stage = .pixel)
    (hm : s.remembered? site.key = none) (hs : s.site? site.key = some site)
    (hk : site.node.kind = .interpolateVsToPs) (hf : Feeds table site.key)
    (hb : (s.box? site.key).isSome) (ht : s'.instances <+: table)
    (hr : Course settings ⟨.node site, s.start site, v, s'⟩ l) :
    (s'.finish site.key v).SlotsAgree settings table := by
  have hgrows : (s.start site).Grows s' := hr.runs.grows
  have hp : s.instances <+: table := hgrows.instances.trans ht
  have hi := hf.interpolates hw (node?_mono hp (State.node?_of_site? hs)) hk
  obtain ⟨-, hcases⟩ := hr.of_interpolate hk hstage
  -- nothing is remembered of the node until it is done
  have hmemory : s'.memory = s.memory ∧ s'.computed = site.key :: s.computed := by
    rcases hcases with ⟨-, rfl⟩ | ⟨cause, -, -, rfl⟩
    · exact ⟨rfl, rfl⟩
    · exact ⟨(SameCode.report _ _ _).memory, (State.sameLog_report _ _ _).computed⟩
  have hremembered : ∀ key, s'.remembered? key = s.remembered? key := by
    intro key
    unfold State.remembered?
    rw [hmemory.1]
  have hself : (s'.finish site.key v).remembered? site.key = some v := by
    rw [State.remembered?_finish_self (State.isSome_box?_mono hgrows.instances hb), hremembered, hm]
    rfl
  have hother : ∀ key, key ≠ site.key →
      (s'.finish site.key v).remembered? key = s.remembered? key := by
    intro key hne
    rw [State.remembered?_finish_of_ne s' hne, hremembered]
  have hcomputed : (s'.finish site.key v).computed = site.key :: s.computed :=
    (State.sameLog_finish s' site.key v).computed.trans hmemory.2
  have hd : s.diagnostics <+: (s'.finish site.key v).diagnostics :=
    hgrows.diagnostics.trans (State.extends_finish s' site.key v).diagnostics
  rcases hcases with ⟨rfl, rfl⟩ | ⟨cause, hrefuse, rfl, rfl⟩
  · exact h.grant hi hm s.context (State.finish_slots _ _ _) hd hcomputed hself hother
  · refine h.refuse hm hrefuse ?_ hd hcomputed ?_ hself hother
    · rw [State.finish_slots, State.report_slots]
      rfl
    · refine (State.extends_finish _ site.key _).diagnostics.subset ?_
      rw [← State.diagnose_eq hp (lt_of_node? (State.node?_of_site? hs))]
      exact State.diagnose_mem_report (s.start site) site.key cause

theorem State.isSome_box?_of_feeds {key : BoxKey} {site : Site} (hw : WellFormed table)
    (hp : s.instances <+: table) (hf : Feeds table key) (hs : s.site? key = some site) :
    (s.box? key).isSome := by
  have hn := State.node?_of_site? hs
  obtain ⟨_, b, -, hb, -⟩ := State.output_of_feeds (s := { instances := table }) hw hf
  rw [State.box?_eq, node?_mono hp hn] at hb
  rw [State.box?_eq, hn, hb]
  rfl

theorem Course.slotsAgree (h : Course settings x l) (hw : WellFormed table)
    (ht : x.after.instances <+: table) (hstage : x.before.stage = .pixel)
    (hfed : ∀ y ∈ l, y.task.Fed table) (hclaim : x.task.Claimless .pixel)
    (hspares : ∀ key, Interpolates table key → x.task.Spares key.place)
    (hx : x.before.SlotsAgree settings table) : x.after.SlotsAgree settings table := by
  induction h with
  | leaf h =>
    exact hx.of_same h.slots (Course.leaf h).runs.grows.diagnostics fun key _ => h.sameAt key.place
  | @unary x y l h hy ih =>
    have hduring := h.during
    have hty : y.after.instances <+: table := hduring.ends.instances.trans ht
    have hfedx := hfed x List.mem_cons_self
    have hfedl : ∀ w ∈ l, w.task.Fed table := fun w hmem => hfed w (List.mem_cons_of_mem x hmem)
    by_cases hd : ∃ site, y.task = .node site ∧ site.node.kind = .interpolateVsToPs
    · obtain ⟨site, hsite, hk⟩ := hd
      cases h with
      | @dispatched key s site' v s' hm hs ha =>
        cases hsite
        obtain rfl := State.key_of_site? hs
        have hgrows : (s.start site).Grows s' := hy.runs.grows
        have hb := State.isSome_box?_of_feeds hw (hgrows.instances.trans hty) hfedx hs
        exact State.SlotsAgree.dispatched hx hw hstage hm hs hk hfedx hb hty hy
      | _ => cases hsite
    · obtain ⟨hopen, hclose, hstage', htask⟩ := h.slots_unary (hstage ▸ hclaim) fun site hs => by
        rw [hs]
        exact fun hk => absurd ⟨site, hs, hk⟩ hd
      -- the node that is evaluated, if one is, is none that interpolates
      have hne : ∀ key, Interpolates table key → ∀ site, y.task = .node site →
          site.key.place ≠ key.place := by
        intro key hi site hs hp
        obtain ⟨node, hn, hk⟩ := hi.node
        have hholds := hfedl y hy.self_mem
        rw [hs] at hholds
        obtain ⟨hgraph, hnode⟩ := Prod.mk.inj hp
        rw [← hgraph, ← hnode, hholds.2.node?] at hn
        exact hd ⟨site, hs, Option.some.inj hn ▸ hk⟩
      have hmid : y.before.SlotsAgree settings table :=
        hx.of_same hopen hduring.starts.diagnostics fun key hi =>
          (h.sameAt_unary (hspares key hi) (hne key hi)).1
      have hend := ih hty (hstage'.trans hstage) hfedl (hstage ▸ htask)
        (fun key hi => (h.sameAt_unary (hspares key hi) (hne key hi)).2.2) hmid
      exact hend.of_same hclose hduring.ends.diagnostics fun key hi =>
        (h.sameAt_unary (hspares key hi) (hne key hi)).2.1
  | @binary x y z l l' h hy hz ihy ihz =>
    obtain ⟨hb, hm, he, hcy, hcz⟩ := h.slots_binary hclaim
    have htz : z.after.instances <+: table := he ▸ ht
    have hty : y.after.instances <+: table := hm ▸ hz.runs.grows.instances.trans htz
    have hstage' : z.before.stage = .pixel := by
      rw [hm, hy.runs.grows.stage, hb]
      exact hstage
    have hfirst := ihy hty (hb ▸ hstage)
      (fun w hmem => hfed w (List.mem_cons_of_mem x (List.mem_append_left l' hmem))) hcy
      (fun key hi => (h.binary (hspares key hi)).2.2.2.1) (hb ▸ hx)
    rw [he]
    exact ihz htz hstage'
      (fun w hmem => hfed w (List.mem_cons_of_mem x (List.mem_append_right l hmem))) hcz
      (fun key hi => (h.binary (hspares key hi)).2.2.2.2) (hm ▸ hfirst)

theorem Succession.slotsAgree (h : Succession settings g s xs s') (hl : Courses settings xs l)
    (hw : WellFormed table) (ht : s'.instances <+: table) (hstage : s.stage = .pixel)
    (hfed : ∀ y ∈ l, y.task.Fed table) (hs : s.SlotsAgree settings table) :
    s'.SlotsAgree settings table := by
  induction h generalizing l with
  | nil => exact hs
  | @cons s x xs s' hx hxs ih =>
    cases hl with
    | cons hc hcs =>
      obtain ⟨c, hbefore⟩ := hx.before
      have hstage' : x.before.stage = .pixel := by rw [hbefore, ← hstage]
      have hstart : x.before.SlotsAgree settings table := by
        rw [hbefore]
        exact hs.of_same rfl (List.prefix_refl _) fun _ _ => .of_eq rfl rfl
      have hfirst := hc.slotsAgree hw (hxs.keeps.instances.trans ht) hstage'
        (fun y hy => hfed y (List.mem_append_left _ hy)) (hx.top.claimless .pixel)
        (fun key _ => hx.top.spares key.place) hstart
      refine ih hcs ht (hx.runs.grows.stage.trans hstage')
        (fun y hy => hfed y (List.mem_append_right _ hy)) ?_
      exact hfirst.of_same rfl (List.prefix_refl _) fun _ _ => .of_eq rfl rfl

/-! While a node that interpolates is under way, no box is evaluated. -/

/-- What is evaluated while a node is under way belongs to the evaluation of the node. -/
theorem Course.node_of_active (h : Course settings x l) (hy : y ∈ l) (hp : p ∈ y.before.active) :
    p ∈ x.before.active ∨ ∃ w ∈ l, ∃ lw site, Course settings w lw ∧ y ∈ lw ∧
      w.task = .node site ∧ site.key.place = p := by
  induction h with
  | leaf =>
    obtain rfl := List.mem_singleton.mp hy
    exact .inl hp
  | @unary x z l h hz ih =>
    rcases List.mem_cons.mp hy with rfl | hy
    · exact .inl hp
    · rcases ih hy with hact | ⟨w, hw, hrest⟩
      · by_cases hd : ∃ site, z.task = .node site ∧ site.key.place = p
        · obtain ⟨site, ht, hplace⟩ := hd
          exact .inr ⟨z, List.mem_cons_of_mem x hz.self_mem, l, site, hz, hy, ht, hplace⟩
        · refine .inl (by_contra fun hx => h.not_active (fun site ht he => ?_) hx hact)
          exact hd ⟨site, ht, he⟩
      · exact .inr ⟨w, List.mem_cons_of_mem x hw, hrest⟩
  | @binary x z z' l l' h hz hz' ihz ihz' =>
    have hactive : z.before.active = x.before.active ∧ z'.before.active = x.before.active := by
      cases h with
      | connected => exact ⟨rfl, hz.runs.grows.active⟩
    rcases List.mem_cons.mp hy with rfl | hy
    · exact .inl hp
    · rcases List.mem_append.mp hy with hy | hy
      · rcases ihz hy with hact | ⟨w, hw, hrest⟩
        · exact .inl (hactive.1 ▸ hact)
        · exact .inr ⟨w, List.mem_cons_of_mem x (List.mem_append_left l' hw), hrest⟩
      · rcases ihz' hy with hact | ⟨w, hw, hrest⟩
        · exact .inl (hactive.2 ▸ hact)
        · exact .inr ⟨w, List.mem_cons_of_mem x (List.mem_append_right l hw), hrest⟩

theorem State.stepwise_stage (settings : Settings) :
    Stepwise settings fun s s' => s'.stage = s.stage where
  refl _ := rfl
  trans h h' := h'.trans h
  context _ _ := rfl
  active _ _ := rfl
  loads _ _ := rfl
  record _ _ := rfl
  use _ _ := rfl
  push _ _ := rfl
  report s key cause := (s.grows_report key cause).stage
  sample s texture := (s.grows_sample texture).stage
  remember s key value := (s.grows_remember key value).stage
  claim s key input := (s.grows_claim settings key input).stage
  instantiate s site function := (s.grows_instantiate site function).stage

namespace StageRun

/-- No box of a node that interpolates is asked for while the node is under way. -/
theorem not_active (h : StageRun settings g table s xs s') (hl : Courses settings xs l)
    (hstage : s.stage = .pixel) {key : BoxKey} {node : Node}
    (hn : node? table key.graph key.node = some node) (hk : node.kind = .interpolateVsToPs)
    (hy : y ∈ l) (ht : y.task = .box key) : key.place ∉ y.before.active := by
  intro hp
  obtain ⟨x, -, l', hsub, hc, hmem, -, hactive, -⟩ := h.succession.exists_course hl hy
  rcases hc.node_of_active hmem hp with hx | ⟨w, hw, lw, site, hcw, hyw, htw, hplace⟩
  · rw [hactive] at hx
    cases hx
  · have hholds := h.fed hl w (hsub hw)
    rw [htw] at hholds
    obtain ⟨hgraph, hnode⟩ := Prod.mk.inj hplace
    have hkind : site.node.kind = .interpolateVsToPs := by
      have hsame := hholds.2.node?
      rw [hgraph, hnode, hn] at hsame
      exact Option.some.inj hsame ▸ hk
    have hwstage := ((h.succession.stepwise (State.stepwise_stage settings) hl).2 w (hsub hw)).1
    obtain ⟨task, before, value, after⟩ := w
    obtain rfl : task = .node site := htw
    exact (hcw.of_interpolate hkind (hwstage.trans hstage)).1 y hyw key ht

/-- The value of a node that interpolates is remembered at the end of the stage. -/
theorem interpolates (h : StageRun settings g table s xs s') (hl : Courses settings xs l)
    (hstage : s.stage = .pixel) {key : BoxKey} {node : Node}
    (hn : node? table key.graph key.node = some node) (hk : node.kind = .interpolateVsToPs)
    (hy : y ∈ l) (ht : y.task = .box key) :
    Interpolates table key ∧ s'.remembered? key = some y.value := by
  have hfed := h.fed hl y hy
  rw [ht] at hfed
  refine ⟨hfed.interpolates h.wellFormed hn hk, ?_⟩
  exact (h.passage hl key.place).agree y hy key ht rfl (h.not_active hl hstage hn hk hy ht)

theorem slotsAgree (h : StageRun settings g table s xs s') (hl : Courses settings xs l)
    (hstage : s.stage = .pixel) (hslots : s.slots = []) : s'.SlotsAgree settings table :=
  h.succession.slotsAgree hl h.wellFormed h.instances hstage (h.fed hl)
    (State.slotsAgree_of_nil hslots h.memory)

end StageRun

end

end ShaderGraph
