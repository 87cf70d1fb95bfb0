import Mathlib.Logic.Relation
import ShaderGraph.Proofs.Enactment
import ShaderGraph.Proofs.Slots

/-! Cycles in the material graph. Without calls the evaluation of a stage is a depth-first search
along the inputs that the nodes read: the nodes under way are the path to the current node, and the
nodes of which something is remembered are done with. So a node is found to depend on itself just if
the search meets a cycle. -/

namespace ShaderGraph

open Relation

/-! ### Dependencies -/

/-- The input boxes that a node reads in a stage. -/
def Node.operands (n : Node) (stage : Stage) : List BoxId :=
  match n.kind with
  | .add | .subtract | .multiply | .divide | .min | .max | .dot | .blendNormals
  | .cameraDepthFade => [0, 1]
  | .abs | .saturate | .normalize => [0]
  | .customCode =>
    if Text.isBlank (((n.param? 0).bind Param.text?).getD "") then []
    else (List.range CustomCode.inputCount).map CustomCode.inputBox
  | .interpolateVsToPs => if stage = .vertex then [0] else []
  | _ => []

namespace Graph

/-- The node that feeds an input box. -/
def source? (g : Graph) (i : Nat) (box : BoxId) : Option Nat :=
  (g.box? i box).bind fun b => b.connection.map (·.node.toNat)

/-- In a stage, a node depends on the nodes that feed the boxes it reads. -/
def DependsOn (g : Graph) (stage : Stage) (i j : Nat) : Prop :=
  ∃ node, g.node? i = some node ∧ ∃ box ∈ node.operands stage, g.source? i box = some j

/-- The nodes from which the material is evaluated in a stage: those that feed a parameter of the
stage, and in the vertex stage also those that feed an interpolant. -/
def Begins (g : Graph) (output : Nat) (slots : List Slot) (stage : Stage) (i : Nat) : Prop :=
  (∃ p ∈ Parameter.inStage stage, g.source? output p.box = some i) ∨
    stage = .vertex ∧ ∃ slot ∈ slots, g.source? slot.input.node slot.input.box = some i

/-- The node is one of those at which a stage begins, or one of them depends on it. -/
def Reached (g : Graph) (stage : Stage) (begins : Nat → Prop) (i : Nat) : Prop :=
  ∃ first, begins first ∧ ReflTransGen (g.DependsOn stage) first i

/-- A node that is reached depends on itself. -/
def Circular (g : Graph) (stage : Stage) (begins : Nat → Prop) (i : Nat) : Prop :=
  g.Reached stage begins i ∧ TransGen (g.DependsOn stage) i i

/-- The node is on a cycle that is reached in one of the two stages. -/
def OnCycle (g : Graph) (output : Nat) (slots : List Slot) (i : Nat) : Prop :=
  ∃ stage, g.Circular stage (g.Begins output slots stage) i

/-- Nothing leads from the node into a cycle. -/
def Settled (g : Graph) (stage : Stage) (i : Nat) : Prop :=
  Acc (Function.swap (g.DependsOn stage)) i

section

variable {g : Graph} {stage : Stage} {i j : Nat}

theorem Settled.reach (h : g.Settled stage i) (hr : ReflTransGen (g.DependsOn stage) i j) :
    g.Settled stage j := by
  induction hr with
  | refl => exact h
  | tail _ hdep ih => exact ih.inv hdep

theorem Settled.not_transGen (h : g.Settled stage i) : ¬TransGen (g.DependsOn stage) i i := by
  have hacc : Acc (TransGen (Function.swap (g.DependsOn stage))) i := Acc.transGen h
  induction hacc with
  | intro i _ ih => exact fun hi => ih i (transGen_swap.mpr hi) (h.reach hi.to_reflTransGen) hi

end

end Graph

/-! ### What scripts read -/

/-- Nothing is read once something has been remembered. -/
def Act.Before (a b : Act) : Prop := a = .remember → ∀ box, b ≠ .read box

theorem Act.pairwise_before {acts : List Act} (h : .remember ∉ acts) : acts.Pairwise Act.Before :=
  List.pairwise_of_forall_mem_list fun _ ha _ _ heq => absurd (heq ▸ ha) h

namespace Site

variable {site : Site} {stage : Stage} {box : BoxId}

theorem read_mem_customScript :
    .read box ∈ site.customScript ↔
      box ∈ (List.range CustomCode.inputCount).map CustomCode.inputBox := by
  have hread : .read box ∈ site.customScript ↔
      ∃ i < CustomCode.inputCount, box = CustomCode.inputBox i := by
    simp [customScript]
  simp only [hread, List.mem_map, List.mem_range, eq_comm]

/-- The script of an output reads just the operands of the node. -/
theorem read_mem_script (h : site.box ∈ site.node.kind.outputBoxes) :
    .read box ∈ site.script stage ↔ box ∈ site.node.operands stage := by
  unfold script Node.operands
  cases hk : site.node.kind with
  | customCode =>
    have hall : NodeKind.customCode.outputBoxes.all fun box => (CustomCode.output? box).isSome := by
      decide
    have hout := List.all_eq_true.mp hall site.box (hk ▸ h)
    simp only [hout, true_and]
    split
    next => exact read_mem_customScript
    next hb => simp [not_not.mp hb]
  | interpolateVsToPs => cases stage <;> simp
  | screenPosition =>
    dsimp only
    split <;> simp
  | _ => simp

theorem customScript_pairwise (site : Site) : site.customScript.Pairwise Act.Before := by
  refine List.pairwise_append.mpr ⟨Act.pairwise_before ?_, ?_, fun a _ b hb _ box => ?_⟩
  · simp
  · exact List.pairwise_replicate.mpr (.inr fun _ box => by simp)
  · rw [List.eq_of_mem_replicate hb]
    simp

theorem script_pairwise (site : Site) (stage : Stage) :
    (site.script stage).Pairwise Act.Before := by
  unfold script
  cases hk : site.node.kind with
  | customCode =>
    dsimp only
    split
    · exact site.customScript_pairwise
    · exact .nil
  | interpolateVsToPs | screenPosition =>
    dsimp only
    split <;> exact Act.pairwise_before (by simp)
  | _ => exact Act.pairwise_before (by simp)

end Site

/-! ### The search -/

/-- The node is found to depend on itself. -/
def Diagnostic.IsCircular (d : Diagnostic) : Prop := ∃ id, d.cause = .dependsOnItself id

namespace State

/-- Some node is found to depend on itself. -/
def FoundCircular (s : State) : Prop := ∃ d ∈ s.diagnostics, d.IsCircular

/-- A state of the search in a stage. `circular` are the nodes that may be reported. -/
structure Searches (g : Graph) (stage : Stage) (circular : Nat → Prop) (s : State) : Prop where
  instances : s.instances = [⟨g, none⟩]
  context : s.context = .root
  stage_eq : s.stage = stage
  slots : ∀ slot ∈ s.slots, slot.node.graph = 0 ∧ slot.context = .root
  reported : ∀ d ∈ s.diagnostics, d.IsCircular → ∃ i node, g.node? i = some node ∧
    d.function = none ∧ d.node = node.id ∧ d.cause = .dependsOnItself node.id ∧ circular i
  /-- What is remembered leads into no cycle, as long as none is found. -/
  settled : ¬s.FoundCircular → ∀ p ∈ s.memory, g.Settled stage p.1.node

variable {g : Graph} {stage : Stage} {circular : Nat → Prop} {s s' : State} {key : BoxKey}

theorem FoundCircular.mono (h : s.FoundCircular) (hd : s.diagnostics <+: s'.diagnostics) :
    s'.FoundCircular := by
  obtain ⟨d, hmem, hc⟩ := h
  exact ⟨d, hd.subset hmem, hc⟩

theorem report_eq (s : State) (key : BoxKey) (cause : Cause) :
    ∃ diagnostics trace, s.report key cause = { s with diagnostics, trace } := by
  unfold report
  dsimp only
  split
  · exact ⟨s.diagnostics, s.trace, rfl⟩
  · exact ⟨_, _, rfl⟩

theorem claim_eq (s : State) (settings : Settings) (key input : BoxKey) :
    ∃ slots, (s.claim settings key input).2 = { s with slots } := by
  unfold claim
  split
  · exact ⟨s.slots, rfl⟩
  split
  · exact ⟨s.slots, rfl⟩
  · exact ⟨_, rfl⟩

namespace Searches

theorem node?_eq (h : s.Searches g stage circular) (hk : key.graph = 0) :
    CallTree.node? s.instances key.graph key.node = g.node? key.node := by
  rw [h.instances, hk]
  rfl

theorem site? {site : Site} (h : s.Searches g stage circular) (hk : key.graph = 0)
    (hs : s.site? key = some site) : site.key = key ∧ g.node? key.node = some site.node :=
  ⟨key_of_site? hs, by rw [← h.node?_eq hk, node?_of_site? hs]⟩

theorem source?_eq (h : s.Searches g stage circular) (key : BoxKey) (hk : key.graph = 0) :
    g.source? key.node key.box = (s.producer? key).map (·.node) := by
  have hbox : s.box? key = g.box? key.node key.box := by
    rw [State.box?_eq, h.node?_eq hk]
    rfl
  unfold Graph.source? State.producer?
  rw [hbox, Option.map_bind]
  simp [Function.comp_def]

/-- What feeds a box is an output of a node that exists. -/
theorem output_of_producer? {producer : BoxKey} (h : s.Searches g stage circular)
    (hg : g.WellFormed) (hp : s.producer? key = some producer) (hk : key.graph = 0) :
    producer.graph = 0 ∧ ∃ node, g.node? producer.node = some node ∧
      producer.box ∈ node.kind.outputBoxes := by
  have hw : CallTree.WellFormed s.instances := by
    simpa [CallTree.WellFormed, h.instances] using hg
  have hgraph : producer.graph = 0 := (graph_of_producer? hp).trans hk
  have hfeeds := feeds_of_producer? hw hp
  obtain ⟨node, -, hn, -, -, -⟩ := output_of_feeds hw hfeeds
  exact ⟨hgraph, node, (h.node?_eq hgraph).symm.trans hn, hfeeds.mem_outputBoxes hw hn⟩

/-- A report, unless it is of a node that depends on itself. -/
theorem report {cause : Cause} (h : s.Searches g stage circular)
    (hc : ∀ id, cause ≠ .dependsOnItself id) (key : BoxKey) :
    (s.report key cause).Searches g stage circular := by
  have hgrows := s.grows_report key cause
  have hfound := fun (hs : s.FoundCircular) => hs.mono hgrows.diagnostics
  have hreported : ∀ d ∈ (s.report key cause).diagnostics, d.IsCircular → d ∈ s.diagnostics := by
    rintro d hd ⟨id, hid⟩
    rcases mem_report hd with hd | rfl
    · exact hd
    · exact absurd hid (hc id)
  obtain ⟨diagnostics, trace, heq⟩ := s.report_eq key cause
  rw [heq] at hfound hreported ⊢
  exact ⟨h.instances, h.context, h.stage_eq, h.slots,
    fun d hd hcirc => h.reported d (hreported d hd hcirc) hcirc, fun hn => h.settled (hn ∘ hfound)⟩

/-- The report of a node that depends on itself. -/
theorem report_circular {node : Node} (h : s.Searches g stage circular) (hk : key.graph = 0)
    (hn : g.node? key.node = some node) (hc : circular key.node) :
    (s.report key (.dependsOnItself node.id)).Searches g stage circular := by
  have hmem := s.diagnose_mem_report key (.dependsOnItself node.id)
  have hreported : ∀ d ∈ (s.report key (.dependsOnItself node.id)).diagnostics,
      d ∈ s.diagnostics ∨ d = s.diagnose key (.dependsOnItself node.id) := fun _ => mem_report
  obtain ⟨diagnostics, trace, heq⟩ := s.report_eq key (.dependsOnItself node.id)
  rw [heq] at hmem hreported ⊢
  refine ⟨h.instances, h.context, h.stage_eq, h.slots, fun d hd hcirc => ?_,
    fun hn => absurd ⟨_, hmem, node.id, rfl⟩ hn⟩
  rcases hreported d hd with hd | rfl
  · exact h.reported d hd hcirc
  · refine ⟨key.node, node, hn, ?_, ?_, rfl, hc⟩
    · rw [diagnose_function, h.instances, hk]
      rfl
    · exact diagnose_node ((h.node?_eq hk).trans hn) _

/-- Something is remembered of a node that leads into no cycle. -/
theorem remember (h : s.Searches g stage circular) (key : BoxKey)
    (hk : ¬s.FoundCircular → g.Settled stage key.node) (value : Option (Value Local)) :
    (s.remember key value).Searches g stage circular := by
  have hsettled : ¬s.FoundCircular → ∀ p ∈ (s.remember key value).memory,
      g.Settled stage p.1.node := fun hn => forall_mem_remember (h.settled hn) fun _ _ => hk hn
  obtain ⟨memory, heq⟩ := s.remember_eq key value
  rw [heq] at hsettled ⊢
  exact ⟨h.instances, h.context, h.stage_eq, h.slots, h.reported, hsettled⟩

theorem finish (h : s.Searches g stage circular)
    (hk : ¬s.FoundCircular → g.Settled stage key.node) (v : Value Local) :
    (s.finish key v).Searches g stage circular := by
  have hdone :
      { s with active := s.active.erase (key.graph, key.node) }.Searches g stage circular :=
    ⟨h.instances, h.context, h.stage_eq, h.slots, h.reported, h.settled⟩
  unfold State.finish
  dsimp only
  split
  · exact hdone.remember key hk (some v)
  · exact hdone

theorem claim (h : s.Searches g stage circular) (hk : key.graph = 0) (settings : Settings)
    (input : BoxKey) : (s.claim settings key input).2.Searches g stage circular := by
  unfold State.claim
  split
  · exact h
  split
  · exact h
  · refine ⟨h.instances, h.context, h.stage_eq, fun slot hslot => ?_, h.reported, h.settled⟩
    rcases List.mem_append.mp hslot with hslot | hslot
    · exact h.slots slot hslot
    · rw [List.mem_singleton.mp hslot]
      exact ⟨hk, h.context⟩

end Searches

end State

namespace Job

/-- What the search may be asked for: a job for a node to which the nodes at the beginning of the
stage lead, and all nodes under way as well. -/
inductive Asked (g : Graph) (stage : Stage) (begins : Nat → Prop) (s : State) : Job → Prop
  | box {key node} (hk : key.graph = 0) (hn : g.node? key.node = some node)
      (ho : key.box ∈ node.kind.outputBoxes)
      (hr : g.Reached stage begins key.node)
      (ha : ∀ p ∈ s.active, TransGen (g.DependsOn stage) p.2 key.node) :
      Asked g stage begins s (.box key)
  | node {site} (hk : site.key.graph = 0) (hn : g.node? site.key.node = some site.node)
      (ho : site.box ∈ site.node.kind.outputBoxes)
      (hr : g.Reached stage begins site.key.node)
      (ha : ∀ p ∈ s.active, ReflTransGen (g.DependsOn stage) p.2 site.key.node) :
      Asked g stage begins s (.node site)
  | acts {key acts} (hk : key.graph = 0)
      (hr : ∀ box i, .read box ∈ acts → g.source? key.node box = some i →
        g.Reached stage begins i ∧ ∀ p ∈ s.active, TransGen (g.DependsOn stage) p.2 i)
      (hb : acts.Pairwise Act.Before)
      -- before anything is remembered, the inputs that lead into no cycle yet are read
      (hm : .remember ∈ acts → ¬s.FoundCircular → ∀ i, g.DependsOn stage key.node i →
        g.Settled stage i ∨ ∃ box, .read box ∈ acts ∧ g.source? key.node box = some i) :
      Asked g stage begins s (.acts key acts)

/-- What is asked for leads into no cycle. -/
inductive Settled (g : Graph) (stage : Stage) : Job → Prop
  | box {key} (h : g.Settled stage key.node) : Settled g stage (.box key)
  | node {site} (h : g.Settled stage site.key.node) : Settled g stage (.node site)
  | acts {key acts} (h : ∀ box i, .read box ∈ acts → g.source? key.node box = some i →
      g.Settled stage i) : Settled g stage (.acts key acts)

variable {g : Graph} {stage : Stage} {begins : Nat → Prop} {s s' : State} {site : Site}
  {key : BoxKey} {a : Act} {rest : List Act}

namespace Asked

/-- A node gets under way. -/
theorem start (h : (Job.box site.key).Asked g stage begins s)
    (hn : g.node? site.key.node = some site.node) :
    (Job.node site).Asked g stage begins (s.start site) := by
  cases h with
  | box hk hn' ho hr ha =>
    obtain rfl := Option.some.inj (hn.symm.trans hn')
    exact .node hk hn ho hr
      (List.forall_mem_cons.mpr ⟨.refl, fun p hp => (ha p hp).to_reflTransGen⟩)

/-- What a node reads is what it depends on. -/
theorem read_iff (h : (Job.node site).Asked g stage begins s) {i : Nat} :
    g.DependsOn stage site.key.node i ↔
      ∃ box, .read box ∈ site.script stage ∧ g.source? site.key.node box = some i := by
  cases h with
  | node hk hn ho =>
    simp only [Site.read_mem_script ho, Graph.DependsOn, hn, Option.some.injEq, exists_eq_left']

theorem script (h : (Job.node site).Asked g stage begins s) :
    (Job.acts site.key (site.script stage)).Asked g stage begins s := by
  have hread := @h.read_iff
  cases h with
  | node hk hn ho hr ha =>
    refine .acts hk (fun box i hbox hi => ?_) (site.script_pairwise stage)
      fun _ _ i hi => .inr (hread.mp hi)
    have hdep := hread.mpr ⟨box, hbox, hi⟩
    obtain ⟨first, hfirst, hpath⟩ := hr
    exact ⟨⟨first, hfirst, hpath.tail hdep⟩, fun p hp => .tail' (ha p hp) hdep⟩

theorem graph_eq (h : (Job.acts key rest).Asked g stage begins s) : key.graph = 0 := by
  cases h with
  | acts hk => exact hk

/-- The box that feeds an input is asked for. -/
theorem producer {box : BoxId} {producer : BoxKey} {circular : Nat → Prop}
    (h : (Job.acts key (.read box :: rest)).Asked g stage begins s) (hg : g.WellFormed)
    (hs : s.Searches g stage circular) (hp : s.producer? (key.sibling box) = some producer) :
    (Job.box producer).Asked g stage begins s := by
  cases h with
  | acts hk hr =>
    have hsource := hs.source?_eq (key.sibling box) hk
    rw [hp] at hsource
    obtain ⟨hgraph, node, hn, ho⟩ := hs.output_of_producer? hg hp hk
    obtain ⟨hreached, ha⟩ := hr box producer.node List.mem_cons_self hsource
    exact .box hgraph hn ho hreached ha

/-- The inputs have all been read when something is remembered. -/
theorem settled (h : (Job.acts key (.remember :: rest)).Asked g stage begins s)
    (hn : ¬s.FoundCircular) : g.Settled stage key.node := by
  cases h with
  | acts hk hr hb hm =>
    refine .intro _ fun i hi => (hm List.mem_cons_self hn i hi).resolve_right ?_
    rintro ⟨box, hbox, -⟩
    rcases List.mem_cons.mp hbox with heq | hbox
    · cases heq
    · exact (List.pairwise_cons.mp hb).1 _ hbox rfl box rfl

/-- Only the nodes under way matter, and whether a cycle is found. -/
theorem mono (h : (Job.acts key rest).Asked g stage begins s) (hactive : s'.active = s.active)
    (hfound : s.FoundCircular → s'.FoundCircular) :
    (Job.acts key rest).Asked g stage begins s' := by
  cases h with
  | acts hk hr hb hm =>
    refine .acts hk ?_ hb fun hrem hn => hm hrem (hn ∘ hfound)
    rwa [hactive]

/-- What is left of a script once an input that leads into no cycle has been read, or another step
has been made. -/
theorem next (h : (Job.acts key (a :: rest)).Asked g stage begins s)
    (ha : ∀ box i, a = .read box → g.source? key.node box = some i → ¬s.FoundCircular →
      g.Settled stage i) :
    (Job.acts key rest).Asked g stage begins s := by
  cases h with
  | acts hk hr hb hm =>
    refine .acts hk (fun box i hbox => hr box i (List.mem_cons_of_mem a hbox))
      (List.pairwise_cons.mp hb).2 fun hrem hn i hdep => ?_
    rcases hm (List.mem_cons_of_mem a hrem) hn i hdep with hi | ⟨box, hbox, hi⟩
    · exact .inl hi
    · rcases List.mem_cons.mp hbox with rfl | hbox
      · exact .inl (ha box i rfl hi hn)
      · exact .inr ⟨box, hbox, hi⟩

theorem use (h : (Job.acts key rest).Asked g stage begins s) (feature : Feature) :
    (Job.acts key (.use feature :: rest)).Asked g stage begins s := by
  cases h with
  | acts hk hr hb hm =>
    refine .acts hk (by simpa using hr) (List.pairwise_cons.mpr ⟨?_, hb⟩) (by simpa using hm)
    intro b _ heq
    cases heq

end Asked

end Job

/-- How a job changes the state of the search. -/
structure State.Explores (g : Graph) (stage : Stage) (circular : Nat → Prop) (job : Job)
    (s s' : State) : Prop where
  searches : s'.Searches g stage circular
  active : s'.active = s.active
  found : s.FoundCircular → s'.FoundCircular
  /-- What is asked for leads into no cycle, unless one is found. -/
  settled : ¬s'.FoundCircular → job.Settled g stage

section

variable {settings : Settings} {g : Graph} {stage : Stage} {begins circular : Nat → Prop}
  {job : Job} {s s₁ s' : State} {site : Site} {key : BoxKey} {a : Act} {rest : List Act}

namespace State.Explores

/-- A node that was under way is done. -/
theorem finish (h : (s.start site).Explores g stage circular (.node site) s') (v : Value Local) :
    s.Explores g stage circular (.box site.key) (s'.finish site.key v) := by
  have hsettled : ¬s'.FoundCircular → g.Settled stage site.key.node := fun hn => by
    cases h.settled hn with
    | node h => exact h
  have hend := h.searches.finish hsettled v
  obtain ⟨memory, hf⟩ := s'.finish_eq site.key v
  rw [hf] at hend ⊢
  refine ⟨hend, ?_, h.found, fun hn => .box (hsettled hn)⟩
  change s'.active.erase (site.key.graph, site.key.node) = s.active
  rw [h.active]
  exact List.erase_cons_head ..

/-- A node leads into no cycle if none of the inputs that it reads does. -/
theorem node (h : s.Explores g stage circular (.acts site.key (site.script stage)) s')
    (hj : (Job.node site).Asked g stage begins s) :
    s.Explores g stage circular (.node site) s' := by
  refine ⟨h.searches, h.active, h.found, fun hn => .node (.intro _ fun i hi => ?_)⟩
  obtain ⟨box, hbox, hi⟩ := hj.read_iff.mp hi
  cases h.settled hn with
  | acts h => exact h box i hbox hi

/-- Reads that are left out have no effect on what is known of the others. -/
theorem acts_of_subset {rest' : List Act} (h : s.Explores g stage circular (.acts key rest') s')
    (hsub : rest ⊆ rest') : s.Explores g stage circular (.acts key rest) s' := by
  refine ⟨h.searches, h.active, h.found, fun hn => .acts fun box i hbox hi => ?_⟩
  cases h.settled hn with
  | acts h => exact h box i (hsub hbox) hi

/-- A step of a script, and then what is left. -/
theorem cons
    (h : (Job.acts key rest).Asked g stage begins s₁ → s₁.Searches g stage circular →
      s₁.Explores g stage circular (.acts key rest) s')
    (hj : (Job.acts key (a :: rest)).Asked g stage begins s) (hs : s₁.Searches g stage circular)
    (hactive : s₁.active = s.active) (hfound : s.FoundCircular → s₁.FoundCircular)
    (ha : ∀ box i, a = .read box → g.source? key.node box = some i → ¬s₁.FoundCircular →
      g.Settled stage i) :
    s.Explores g stage circular (.acts key (a :: rest)) s' := by
  have hrest := h ((hj.mono hactive hfound).next ha) hs
  refine ⟨hrest.searches, hrest.active.trans hactive, hrest.found ∘ hfound, fun hn => .acts ?_⟩
  intro box i hbox hi
  rcases List.mem_cons.mp hbox with rfl | hbox
  · exact ha box i rfl hi (hn ∘ hrest.found)
  · cases hrest.settled hn with
    | acts hsettled => exact hsettled box i hbox hi

/-- A step that makes no difference to the search. -/
theorem skip {writer : Writer} {textures : List SceneTexture} {usage : Usage}
    (h : (Job.acts key rest).Asked g stage begins s₁ → s₁.Searches g stage circular →
      s₁.Explores g stage circular (.acts key rest) s')
    (hj : (Job.acts key (a :: rest)).Asked g stage begins s) (hs : s.Searches g stage circular)
    (heq : s₁ = { s with writer, textures, usage }) (ha : ∀ box, a ≠ .read box) :
    s.Explores g stage circular (.acts key (a :: rest)) s' := by
  subst heq
  exact .cons h hj ⟨hs.instances, hs.context, hs.stage_eq, hs.slots, hs.reported, hs.settled⟩ rfl
    id fun box _ hbox => absurd hbox (ha box)

end State.Explores

/-- The search reports only nodes that depend on themselves, and reports some unless what is asked
for leads into no cycle. -/
theorem Enacts.explores (h : Enacts settings job s s') (hg : g.WellFormed)
    (hfree : ∀ node ∈ g.nodes, node.kind ≠ .materialFunction)
    (hc : ∀ i, g.Circular stage begins i → circular i) (hj : job.Asked g stage begins s)
    (hs : s.Searches g stage circular) : s.Explores g stage circular job s' := by
  induction h with
  | @answered key s v s' h =>
    cases h with
    | remembered hm =>
      exact ⟨hs, rfl, id, fun hn => .box (hs.settled hn _ (State.mem_of_remembered? hm))⟩
    | absent hm hsite =>
      cases hj with
      | box hk hn => simp [State.site?, State.instance?, hs.instances, hk, hn] at hsite
    | @reentered _ _ site hm hsite ha =>
      cases hj with
      | box hk hn _ hr ha' =>
        -- the node is under way, so it leads to itself
        have hcirc := hc key.node ⟨hr, ha' _ ha⟩
        have hgrows := s.grows_report key (.dependsOnItself site.node.id)
        refine ⟨hs.report_circular hk (hs.site? hk hsite).2 hcirc, hgrows.active,
          (·.mono hgrows.diagnostics), fun hn => absurd ?_ hn⟩
        exact ⟨_, State.diagnose_mem_report _ _ _, _, rfl⟩
  | @dispatched key site s v _ _ _ h _ ih =>
    cases h with
    | dispatched hm hsite ha =>
      have hk : key.graph = 0 := by cases hj with | box hk => exact hk
      obtain ⟨rfl, hnode⟩ := hs.site? hk hsite
      have hstart : (s.start site).Searches g stage circular :=
        ⟨hs.instances, hs.context, hs.stage_eq, hs.slots, hs.reported, hs.settled⟩
      exact (ih (hj.start hnode) hstart).finish v
  | @abandoned site s _ _ h =>
    cases h with
    | notLoaded hk | recursive hk | unlisted hk | unfed hk =>
      cases hj with
      | node _ hn => exact absurd hk (hfree _ (List.mem_of_getElem? hn))
    | outside hk hf =>
      have hgrows := s.grows_report site.key .missingCall
      refine ⟨hs.report (fun id heq => Cause.dependsOnItself_ne id heq.symm) site.key,
        hgrows.active, (·.mono hgrows.diagnostics), fun _ => .node (.intro _ fun i hi => ?_)⟩
      -- outside of calls, a function input has no script
      obtain ⟨box, hbox, -⟩ := hj.read_iff.mp hi
      simp [Site.script, hk] at hbox
    | undeclared _ hf =>
      rw [hs.context] at hf
      cases hf
  | nested h _ ih =>
    cases h with
    | called hk =>
      cases hj with
      | node _ hn => exact absurd hk (hfree _ (List.mem_of_getElem? hn))
    | passed _ hf =>
      rw [hs.context] at hf
      cases hf
  | scripted h _ ih =>
    cases h with
    | plain _ hi =>
      rw [hs.stage_eq, Site.acts, if_neg hi] at ih
      exact (ih hj.script hs).node hj
    | defaulted _ hf =>
      rw [hs.context] at hf
      cases hf
  | ended => exact ⟨hs, rfl, id, fun _ => .acts (by simp)⟩
  | @connected key s box rest producer s₁ s₂ hp _ _ ih ihn =>
    have hdone := ih (hj.producer hg hs hp) hs
    refine .cons ihn hj hdone.searches hdone.active hdone.found fun box' i heq hi hn => ?_
    cases heq
    have hsource := hs.source?_eq (key.sibling box) hj.graph_eq
    rw [hp] at hsource
    obtain rfl := Option.some.inj (hsource.symm.trans hi)
    cases hdone.settled hn with
    | box h => exact h
  | @unconnected key s box rest s' hp _ ih =>
    refine .cons ih hj hs rfl id fun box' i heq hi => ?_
    cases heq
    have hsource := hs.source?_eq (key.sibling box) hj.graph_eq
    rw [hp] at hsource
    cases hsource.symm.trans hi
  | declared _ _ ih | wrote _ ih | used _ ih => exact .skip ih hj hs rfl (by simp)
  | @commented key s rest text s' _ ih =>
    split at ih
    · exact .skip ih hj hs rfl (by simp)
    · exact .skip ih hj hs rfl (by simp)
  | @sampled key s rest texture s' _ ih =>
    unfold State.sample at ih
    split at ih
    · exact .skip ih hj hs rfl (by simp)
    · exact .skip ih hj hs rfl (by simp)
  | @reported key s rest cause s' hcall _ ih =>
    have hgrows := s.grows_report key cause
    have hfound := fun (h : s.FoundCircular) => h.mono hgrows.diagnostics
    have hother : ∀ id, cause ≠ .dependsOnItself id := fun id heq => hcall (heq ▸ .malformed _)
    have hrest := ih (hj.mono hgrows.active hfound) (hs.report hother key)
    exact ⟨hrest.searches, hrest.active.trans hgrows.active, hrest.found ∘ hfound, hrest.settled⟩
  | @kept key s rest box value s' _ ih =>
    have hkept := hs.remember (key.sibling box) hj.settled value
    obtain ⟨memory, heq⟩ := s.remember_eq (key.sibling box) value
    rw [heq] at hkept ih
    exact .cons ih hj hkept rfl id (by simp)
  | @claimed key s rest input s' _ ih =>
    have hclaimed := hs.claim hj.graph_eq settings (key.sibling input)
    obtain ⟨slots, heq⟩ := s.claim_eq settings key (key.sibling input)
    rw [heq] at hclaimed ih
    refine .cons (fun hrest hs₁ => ?_) hj hclaimed rfl id (by simp)
    generalize (s.claim settings key (key.sibling input)).1 = c at ih
    cases c with
    | full limit => exact ih hrest hs₁
    | unsupported => exact ih hrest hs₁
    | granted slot =>
      exact (ih (hrest.use .interpolants) hs₁).acts_of_subset (List.subset_cons_self _ _)

end

/-! ### Materials -/

/-- The state in which a generator can go on with the search. -/
structure State.Ready (settings : Settings) (g : Graph) (stage : Stage) (circular : Nat → Prop)
    (s : State) : Prop where
  idle : s.Idle settings g
  depthless : s.Depthless
  searches : s.Searches g stage circular

/-- A stage begins with nothing remembered. -/
theorem State.Searches.ready {settings : Settings} {g : Graph} {stage : Stage}
    {circular : Nat → Prop} {s : State} (h : s.Searches g stage circular) (hs : s.Idle settings g)
    (stage' : Stage) : (s.beginStage stage').Ready settings g stage' circular := by
  refine ⟨hs.beginStage stage', s.depthless_beginStage stage', h.instances, h.context, rfl, h.slots,
    h.reported, ?_⟩
  simp [beginStage]

/-- There are no calls in the graph, and what depends on itself may be reported. -/
structure Graph.Searchable (g : Graph) (stage : Stage) (begins circular : Nat → Prop) : Prop where
  wellFormed : g.WellFormed
  callFree : ∀ node ∈ g.nodes, node.kind ≠ .materialFunction
  circular : ∀ i, g.Circular stage begins i → circular i

section

variable {settings : Settings} {g : Graph} {stage : Stage} {begins circular : Nat → Prop}
  {e : Evaluator} {output : Nat} {s s' : State}

/-- The evaluation of a single input. -/
theorem Runs.explores {key : BoxKey} {r : Recipe Local (Value Local)} {v : Value Local}
    {box : BoxId} (h : Runs settings (.recipe key r) s v s')
    (ht : (Task.recipe key r).IsJob (.acts key [.read box]))
    (hg : g.Searchable stage begins circular) (hk : key.graph = 0)
    (hb : ∀ i, g.source? key.node box = some i → begins i) (hactive : s.active = [])
    (hd : s.Depthless) (hs : s.Searches g stage circular) :
    s'.Depthless ∧ s'.Searches g stage circular ∧
      (¬s'.FoundCircular → ∀ i, g.source? key.node box = some i → g.Settled stage i) := by
  obtain ⟨henacts, -, hd'⟩ := h.enacts ht hd
  have hasked : (Job.acts key [.read box]).Asked g stage begins s := by
    refine .acts hk (fun box' i hbox hi => ?_) (List.pairwise_singleton _ _) (by simp)
    obtain rfl : box' = box := by simpa using hbox
    exact ⟨⟨i, hb i hi, .refl⟩, by simp [hactive]⟩
  have hdone := henacts.explores hg.wellFormed hg.callFree hg.circular hasked hs
  refine ⟨hd', hdone.searches, fun hn i hi => ?_⟩
  cases hdone.settled hn with
  | acts h => exact h box i List.mem_cons_self hi

namespace Generator

/-- A sequence of evaluations keeps on searching. Each of them stands for inputs that lead into no
cycle, unless one is found. -/
theorem mapM_ready {ι α : Type} {P : State → Prop} (f : ι → Eval α) (xs : List ι)
    (feeds : ι → Nat → Prop)
    (h : ∀ x ∈ xs, ∀ s, s.Ready settings g stage circular ∧ P s →
      ((f x s).2.Ready settings g stage circular ∧ P (f x s).2) ∧ s.Grows (f x s).2 ∧
        (¬(f x s).2.FoundCircular → ∀ i, feeds x i → g.Settled stage i))
    (hs : s.Ready settings g stage circular) (hP : P s) :
    (xs.mapM f s).2.Ready settings g stage circular ∧ s.Grows (xs.mapM f s).2 ∧
      (¬(xs.mapM f s).2.FoundCircular → ∀ x ∈ xs, ∀ i, feeds x i → g.Settled stage i) := by
  obtain ⟨hready, hgrows, hall⟩ := Eval.mapM_spec
    (Q := fun x _ s => ¬s.FoundCircular → ∀ i, feeds x i → g.Settled stage i)
    (fun _ _ _ _ hgrows hQ hn => hQ fun h => hn (h.mono hgrows.diagnostics)) xs h s ⟨hs, hP⟩
  refine ⟨hready.1, hgrows, fun hn x hx => ?_⟩
  have hboth := hall.imp (S := fun x _ => (∀ i, feeds x i → g.Settled stage i) ∧ True)
    fun _ _ h => ⟨h hn, trivial⟩
  exact ((List.forall₂_and_left _ _).mp hboth).1 x hx

theorem parameters_ready (he : Engine.Follows settings g [] e)
    (hg : g.Searchable stage begins circular)
    (hb : ∀ p ∈ Parameter.inStage stage, ∀ i, g.source? output p.box = some i → begins i)
    (hs : s.Ready settings g stage circular) :
    (parameters e output stage s).2.Ready settings g stage circular ∧
      s.Grows (parameters e output stage s).2 ∧
      (¬(parameters e output stage s).2.FoundCircular → ∀ p ∈ Parameter.inStage stage,
        ∀ i, g.source? output p.box = some i → g.Settled stage i) := by
  refine mapM_ready (P := fun _ => True) (parameter e output) _ _ (fun p hp s hs => ?_) hs trivial
  have hr := parameter_runs he hs.1.idle output p
  obtain ⟨hd, hsearches, hsettled⟩ := hr.explores (p.isJob _) hg rfl (hb p hp) hs.1.idle.active
    hs.1.depthless hs.1.searches
  exact ⟨⟨⟨hs.1.idle.runs (p.located hs.1.idle output) hr, hd, hsearches⟩, trivial⟩, hr.grows,
    hsettled⟩

theorem interpolant_ready (he : Engine.Follows settings g [] e)
    (hg : g.Searchable stage begins circular) {slot : Slot} (hslot : slot ∈ s.slots)
    (hb : ∀ i, g.source? slot.input.node slot.input.box = some i → begins i)
    (hs : s.Ready settings g stage circular) (n : Nat) :
    (interpolant e slot n s).2.Ready settings g stage circular ∧
      s.Grows (interpolant e slot n s).2 ∧
      (¬(interpolant e slot n s).2.FoundCircular → ∀ i,
        g.source? slot.input.node slot.input.box = some i → g.Settled stage i) := by
  obtain ⟨s', hr, hend⟩ := interpolant_runs he hs.idle hslot n
  obtain ⟨hidle, hgrows⟩ := interpolant_idle hs.idle hslot hr
  obtain ⟨hgraph, hroot⟩ := hs.searches.slots slot hslot
  have hinput := (hs.idle.sound.slots slot hslot).2.2
  rw [hinput] at hb ⊢
  have hsearches : { s with context := slot.context }.Searches g stage circular :=
    { hs.searches with context := hroot }
  obtain ⟨hd, hs', hsettled⟩ := hr.explores (slot.isJob _) hg hgraph hb hs.idle.active
    (hs.depthless.of_eq rfl) hsearches
  rw [hend]
  exact ⟨⟨hidle, hd.of_eq rfl, { hs' with context := hs.searches.context }⟩, hgrows, hsettled⟩

theorem interpolants_ready (he : Engine.Follows settings g [] e)
    (hg : g.Searchable stage begins circular)
    (hb : ∀ slot ∈ s.slots, ∀ i, g.source? slot.input.node slot.input.box = some i → begins i)
    (hs : s.Ready settings g stage circular) :
    (interpolants e s.slots s).2.Ready settings g stage circular ∧
      s.Grows (interpolants e s.slots s).2 ∧
      (¬(interpolants e s.slots s).2.FoundCircular → ∀ slot ∈ s.slots,
        ∀ i, g.source? slot.input.node slot.input.box = some i → g.Settled stage i) := by
  -- the slots stay where they are while interpolants are evaluated
  have hall := mapM_ready (P := fun s' => s.slots <+: s'.slots)
    (fun x : Slot × Nat => interpolant e x.1 x.2) s.slots.zipIdx
    (fun x i => g.source? x.1.input.node x.1.input.box = some i) ?_ hs (List.prefix_refl _)
  · obtain ⟨hready, hgrows, hsettled⟩ := hall
    refine ⟨hready, hgrows, fun hn slot hslot => ?_⟩
    obtain ⟨n, hlt, rfl⟩ := List.getElem_of_mem hslot
    exact hsettled hn (s.slots[n], n) (List.mk_mem_zipIdx_iff_getElem?.mpr (by simp))
  · rintro ⟨slot, n⟩ hx s' ⟨hs', hslots⟩
    have hslot := List.fst_mem_of_mem_zipIdx hx
    obtain ⟨hready, hgrows, hsettled⟩ :=
      interpolant_ready he hg (hslots.subset hslot) (hb slot hslot) hs' n
    exact ⟨⟨hready, hslots.trans hgrows.slots⟩, hgrows, hsettled⟩

/-- The interpolants claim no more slots in the vertex stage. -/
theorem interpolants_slots (he : Engine.Follows settings g [] e) (hs : s.Idle settings g)
    (hstage : s.stage = .vertex) : (interpolants e s.slots s).2.slots = s.slots := by
  have hall := interpolants_succession he hs
  obtain ⟨l, hl⟩ := hall.courses
  exact (hall.slots_of_vertex hl hstage).1

/-- The nodes that are found to depend on themselves are those that do, in one of the stages. -/
theorem stages_circular (he : Engine.Follows settings g [] e) (hg : g.WellFormed)
    (hfree : ∀ node ∈ g.nodes, node.kind ≠ .materialFunction) (hidle : s.Idle settings g)
    (hs : ∀ circular, s.Searches g s.stage circular) (output : Nat) {slots : List Slot} :
    let p := parameters e output .pixel (s.beginStage .pixel)
    let q := parameters e output .vertex (p.2.takeWriter.2.beginStage .vertex)
    let r := interpolants e q.2.slots q.2
    r.2.slots = slots →
      (r.2.FoundCircular ↔ ∃ i, g.OnCycle output slots i) ∧
      ∀ d ∈ r.2.diagnostics, d.IsCircular → ∃ i node, g.node? i = some node ∧
        d.function = none ∧ d.node = node.id ∧ d.cause = .dependsOnItself node.id ∧
        g.OnCycle output slots i := by
  have hsearchable : ∀ stage,
      g.Searchable stage (g.Begins output slots stage) (g.OnCycle output slots) :=
    fun stage => ⟨hg, hfree, fun i hi => ⟨stage, hi⟩⟩
  have hbegins : ∀ stage, ∀ p ∈ Parameter.inStage stage, ∀ i, g.source? output p.box = some i →
      g.Begins output slots stage i := fun _ p hp _ hi => .inl ⟨p, hp, hi⟩
  have hfirst := parameters_ready he (hsearchable .pixel) (hbegins .pixel)
    ((hs _).ready hidle .pixel)
  dsimp only
  generalize parameters e output .pixel (s.beginStage .pixel) = p at hfirst ⊢
  obtain ⟨hp, -, hpixel⟩ := hfirst
  have htaken : p.2.takeWriter.2.Searches g .pixel (g.OnCycle output slots) :=
    ⟨hp.searches.instances, hp.searches.context, hp.searches.stage_eq, hp.searches.slots,
      hp.searches.reported, hp.searches.settled⟩
  have hsecond := parameters_ready he (hsearchable .vertex) (hbegins .vertex)
    (htaken.ready hp.idle.takeWriter .vertex)
  generalize parameters e output .vertex (p.2.takeWriter.2.beginStage .vertex) = q at hsecond ⊢
  obtain ⟨hq, hgrows, hvertex⟩ := hsecond
  have hlast := interpolants_slots he hq.idle hq.searches.stage_eq
  intro hend
  rw [hlast] at hend
  have hthird := interpolants_ready he (hsearchable .vertex)
    (fun slot hslot i hi => .inr ⟨rfl, slot, hend ▸ hslot, hi⟩) hq
  generalize interpolants e q.2.slots q.2 = r at hthird ⊢
  obtain ⟨hr, hgrows', hinter⟩ := hthird
  have hfound : q.2.FoundCircular → r.2.FoundCircular := fun h => h.mono hgrows'.diagnostics
  have hfound' : p.2.FoundCircular → r.2.FoundCircular := fun h =>
    hfound (h.mono hgrows.diagnostics)
  refine ⟨⟨?_, ?_⟩, hr.searches.reported⟩
  · rintro ⟨d, hd, hc⟩
    obtain ⟨i, -, -, -, -, -, hi⟩ := hr.searches.reported d hd hc
    exact ⟨i, hi⟩
  · rintro ⟨i, stage, ⟨first, hfirst, hpath⟩, hi⟩
    by_contra hn
    suffices hsettled : g.Settled stage first from (hsettled.reach hpath).not_transGen hi
    rcases hfirst with ⟨p, hp, hfeeds⟩ | ⟨rfl, slot, hslot, hfeeds⟩
    · cases stage with
      | pixel => exact hpixel (hn ∘ hfound') p hp first hfeeds
      | vertex => exact hvertex (hn ∘ hfound) p hp first hfeeds
    · exact hinter hn slot (hend ▸ hslot) first hfeeds

/-- The same for a generator that has done nothing yet. -/
theorem generate_circular {gen : Generator} (hidle : gen.state.Idle gen.settings gen.material)
    (hg : gen.material.WellFormed)
    (hfree : ∀ node ∈ gen.material.nodes, node.kind ≠ .materialFunction)
    (hs : gen.state = .ofGraph gen.material)
    (ho : gen.material.findKind? .materialOutput = some output) :
    ∃ m, gen.generate.1 = .ok m ∧
      ((∃ d ∈ m.diagnostics, d.IsCircular) ↔
        ∃ i, gen.material.OnCycle output gen.generate.2.state.slots i) ∧
      ∀ d ∈ m.diagnostics, d.IsCircular → ∃ i node, gen.material.node? i = some node ∧
        d.function = none ∧ d.node = node.id ∧ d.cause = .dependsOnItself node.id ∧
        gen.material.OnCycle output gen.generate.2.state.slots i := by
  have hgen := generate_stages ho
  have hsearches : ∀ circular,
      (State.ofGraph gen.material).Searches gen.material .pixel circular := fun _ =>
    ⟨rfl, rfl, rfl, by simp [State.ofGraph], by simp [State.ofGraph], by simp [State.ofGraph]⟩
  have hcircular := stages_circular gen.follows_evaluator hg hfree hidle (hs ▸ hsearches) output rfl
  dsimp only at hgen hcircular
  generalize interpolants gen.evaluator _ _ = r at hgen hcircular
  rw [hgen]
  exact ⟨_, rfl, hcircular⟩

end Generator

end

/-- Cycle detection is exact. If there are no calls in the material graph, some node is reported to
depend on itself just if there is a cycle of dependencies that is reached from what feeds a
parameter, in the stage of the parameter, or from what feeds an interpolant, in the vertex stage.
All nodes that are so reported are on such cycles. -/
theorem cycles_exact (g : Graph) (domain : Domain) (resolver : Resolver) (config : Config)
    (output : Nat) (hg : g.Built) (hfree : ∀ node ∈ g.nodes, node.kind ≠ .materialFunction)
    (ho : g.findKind? .materialOutput = some output) :
    let gen := (Generator.new g domain resolver).withConfig config
    let slots := gen.generate.2.state.slots
    ∃ m, gen.generate.1 = .ok m ∧
      ((∃ d ∈ m.diagnostics, d.IsCircular) ↔ ∃ i, g.OnCycle output slots i) ∧
      ∀ d ∈ m.diagnostics, d.IsCircular → ∃ i node, g.node? i = some node ∧
        d.function = none ∧ d.node = node.id ∧ d.cause = .dependsOnItself node.id ∧
        g.OnCycle output slots i :=
  Generator.generate_circular (Generator.idle_new g domain resolver config) hg.wellFormed hfree rfl
    ho

/-- The color is interpolated. What is to be interpolated is a sum that depends on its own absolute
value. -/
def swirl : Graph :=
  Graph.build [.add .materialOutput [], .add .interpolateVsToPs [], .add .add [], .add .abs [],
    .connect 1 1 0 0, .connect 2 2 1 0, .connect 2 2 3 0, .connect 3 1 2 1]

/-- The cycle is met in the vertex stage only, from the interpolant, and is reported. -/
theorem swirl_reported :
    let gen := (Generator.new swirl .surface ⟨[]⟩).withConfig {}
    let slots := gen.generate.2.state.slots
    swirl.Built ∧ swirl.findKind? .materialOutput = some 0 ∧ slots.map (·.input) = [⟨0, 1, 0⟩] ∧
      swirl.OnCycle 0 slots 2 ∧
      ∃ m, gen.generate.1 = .ok m ∧ ∃ d ∈ m.diagnostics, d.IsCircular := by
  have hg : swirl.Built := ⟨_, rfl⟩
  have ho : swirl.findKind? .materialOutput = some 0 := by decide
  have hcycle : ∀ slots : List Slot, slots.map (·.input) = [⟨0, 1, 0⟩] →
      swirl.OnCycle 0 slots 2 := by
    intro slots hslots
    obtain ⟨slot, rfl, hinput⟩ := List.map_eq_singleton_iff.mp hslots
    have hfeeds : swirl.source? slot.input.node slot.input.box = some 2 := by
      rw [hinput]
      decide
    have hsum : swirl.DependsOn .vertex 2 3 := ⟨_, rfl, 1, by decide, by decide⟩
    have habs : swirl.DependsOn .vertex 3 2 := ⟨_, rfl, 0, by decide, by decide⟩
    exact ⟨.vertex, ⟨2, .inr ⟨rfl, slot, List.mem_cons_self, hfeeds⟩, .refl⟩,
      .tail (.single hsum) habs⟩
  have hslots : ((Generator.new swirl .surface ⟨[]⟩).withConfig {}).generate.2.state.slots.map
      (·.input) = [⟨0, 1, 0⟩] := by decide +kernel
  have hall := cycles_exact swirl .surface ⟨[]⟩ {} 0 hg (by decide) ho
  dsimp only at hall ⊢
  generalize ((Generator.new swirl .surface ⟨[]⟩).withConfig {}).generate = r at hslots hall ⊢
  obtain ⟨m, hm, hiff, -⟩ := hall
  exact ⟨hg, ho, hslots, hcycle _ hslots, m, hm, hiff.mpr ⟨2, hcycle _ hslots⟩⟩

end ShaderGraph
