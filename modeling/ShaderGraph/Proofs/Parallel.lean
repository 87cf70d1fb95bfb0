import ShaderGraph.Proofs.CallChain
import ShaderGraph.Proofs.Slots
import ShaderGraph.Proofs.Twins

/-! Two evaluations side by side. In corresponding states corresponding tasks give the same value,
write the same statements and end in corresponding states again: values are remembered for
corresponding boxes, and a graph that one of them makes is made, or was made before, by the other.
If the two have noted the same so far, they go on to note the same. -/

namespace ShaderGraph

open CallTree

/-- Two evaluations have noted the same, and name the graphs of calls by their call nodes. -/
structure State.SameNotes (place : Nat → Nat) (s u : State) : Prop where
  slots : List.Forall₂ (SlotTwins place s.instances u.instances) s.slots u.slots
  textures : u.textures = s.textures
  usage : u.usage = s.usage
  diagnostics : u.diagnostics = s.diagnostics
  named : Named s.instances
  named' : Named u.instances

/-- Corresponding states. The second evaluation may have made further graphs, but it remembers
nothing of them; what it has noted is only compared if `noted` holds. -/
structure State.Parallel (settings : Settings) (place : Nat → Nat) (g g' : Graph) (noted : Prop)
    (s u : State) : Prop where
  paired : Paired settings place g g' s.instances u.instances
  total : ∀ i < s.instances.length, ∃ j, Twins place s.instances u.instances i j
  context : ContextTwins place s.instances u.instances s.context u.context
  active : List.Forall₂ (NodeTwins place s.instances u.instances) s.active u.active
  memory : ∀ key key', KeyTwins place s.instances u.instances key key' →
    u.remembered? key' = s.remembered? key
  known : ∀ key, (s.remembered? key).isSome → key.graph < s.instances.length
  matched : ∀ key', (u.remembered? key').isSome →
    ∃ key, KeyTwins place s.instances u.instances key key'
  writer : u.writer = s.writer
  stage : u.stage = s.stage
  notes : noted → s.SameNotes place u

/-- The states differ at most in what is written, noted and recorded. -/
structure State.SameCourse (s s' : State) : Prop where
  instances : s'.instances = s.instances
  context : s'.context = s.context
  active : s'.active = s.active
  memory : s'.memory = s.memory
  stage : s'.stage = s.stage

section

variable {α β : Type} {R : α → β → Prop} {a : Option α} {b : Option β}

theorem optionRel_none (h : Option.Rel R a b) (ha : a = none) : b = none := by
  subst ha
  cases h
  rfl

theorem optionRel_some {x : α} (h : Option.Rel R a b) (ha : a = some x) :
    ∃ y, b = some y ∧ R x y := by
  subst ha
  cases h with
  | some h => exact ⟨_, rfl, h⟩

theorem optionRel_some_right {y : β} (h : Option.Rel R a b) (hb : b = some y) :
    ∃ x, a = some x ∧ R x y := by
  subst hb
  cases h with
  | some h => exact ⟨_, rfl, h⟩

end

namespace State.Parallel

variable {settings : Settings} {place : Nat → Nat} {g g' : Graph} {noted : Prop}
  {s s' u u' : State} {key key' : BoxKey}

/-! ### Steps that leave graphs, memory and context alone -/

theorem update (h : s.Parallel settings place g g' noted u) (hs : s.SameCourse s')
    (hu : u.SameCourse u') (hw : u'.writer = s'.writer)
    (hn : noted → s'.SameNotes place u') : s'.Parallel settings place g g' noted u' := by
  have hm (key : BoxKey) : s'.remembered? key = s.remembered? key := by
    rw [remembered?, remembered?, hs.memory]
  have hm' (key : BoxKey) : u'.remembered? key = u.remembered? key := by
    rw [remembered?, remembered?, hu.memory]
  constructor
  case writer => exact hw
  case notes => exact hn
  case stage => rw [hs.stage, hu.stage, h.stage]
  all_goals simp only [hs.instances, hu.instances, hs.context, hu.context, hs.active, hu.active, hm,
    hm']
  · exact h.paired
  · exact h.total
  · exact h.context
  · exact h.active
  · exact h.memory
  · exact h.known
  · exact h.matched

/-- The record is not compared. -/
theorem withTrace (h : s.Parallel settings place g g' noted u) (t t' : List Event) :
    { s with trace := t }.Parallel settings place g g' noted { u with trace := t' } :=
  h.update ⟨rfl, rfl, rfl, rfl, rfl⟩ ⟨rfl, rfl, rfl, rfl, rfl⟩ h.writer
    fun hn => { h.notes hn with }

theorem ask (h : s.Parallel settings place g g' noted u) (id : AssetId) :
    (s.ask id).Parallel settings place g g' noted (u.ask id) :=
  h.update ⟨rfl, rfl, rfl, rfl, rfl⟩ ⟨rfl, rfl, rfl, rfl, rfl⟩ h.writer
    fun hn => { h.notes hn with usage := congrArg (·.insert .functions) (h.notes hn).usage }

theorem use (h : s.Parallel settings place g g' noted u) (feature : Feature) :
    (s.use feature).Parallel settings place g g' noted (u.use feature) :=
  h.update ⟨rfl, rfl, rfl, rfl, rfl⟩ ⟨rfl, rfl, rfl, rfl, rfl⟩ h.writer
    fun hn => { h.notes hn with usage := congrArg (·.insert feature) (h.notes hn).usage }

theorem write (h : s.Parallel settings place g g' noted u) (writer : Writer) :
    { s with writer := writer }.Parallel settings place g g' noted { u with writer := writer } :=
  h.update ⟨rfl, rfl, rfl, rfl, rfl⟩ ⟨rfl, rfl, rfl, rfl, rfl⟩ rfl fun hn => { h.notes hn with }

end State.Parallel

namespace State

theorem sameCourse_report (s : State) (key : BoxKey) (cause : Cause) :
    s.SameCourse (s.report key cause) := by
  unfold report
  dsimp only
  split <;> exact ⟨rfl, rfl, rfl, rfl, rfl⟩

theorem sameCourse_sample (s : State) (texture : SceneTexture) :
    s.SameCourse (s.sample texture) := by
  unfold sample
  split <;> exact ⟨rfl, rfl, rfl, rfl, rfl⟩

/-- The graph that is made for a call. -/
def newInstance (s : State) (site : Site) (function : MaterialFunction) : Instance :=
  ⟨function.graph, some ⟨site.key.graph, site.key.node, function,
    callPath s.instances site.key.graph ++ [site.node.id]⟩⟩

theorem origin?_newInstance (s : State) (site : Site) (function : MaterialFunction) :
    origin? (s.instances ++ [s.newInstance site function]) s.instances.length =
      some ⟨site.key.graph, site.key.node, function,
        callPath s.instances site.key.graph ++ [site.node.id]⟩ := by
  rw [origin?_append_one, if_pos rfl]
  rfl

theorem instantiate_of_some {s : State} {site : Site} {graph : Nat}
    (h : s.instanceOf? site.key.graph site.key.node = some graph) (function : MaterialFunction) :
    s.instantiate site function = (graph, s) := by
  rw [instantiate, h]

theorem instantiate_of_none {s : State} {site : Site}
    (h : s.instanceOf? site.key.graph site.key.node = none) (function : MaterialFunction) :
    s.instantiate site function = (s.instances.length,
      { s.record (.instantiated function.id s.instances.length) with
        instances := s.instances ++ [s.newInstance site function] }) := by
  rw [instantiate, h]
  rfl

namespace Parallel

variable {settings : Settings} {place : Nat → Nat} {g g' : Graph} {noted : Prop}
  {s s' u u' : State} {key key' : BoxKey}

theorem report (h : s.Parallel settings place g g' noted u)
    (hk : KeyTwins place s.instances u.instances key key') (cause : Cause) :
    (s.report key cause).Parallel settings place g g' noted (u.report key' cause) := by
  refine h.update (s.sameCourse_report key cause) (u.sameCourse_report key' cause) ?_ fun hn => ?_
  · rw [(SameCode.report u key' cause).writer, (SameCode.report s key cause).writer, h.writer]
  · obtain ⟨hslots, htextures, husage, hdiagnostics, hnamed, hnamed'⟩ := h.notes hn
    have hd := h.paired.diagnose hnamed hnamed' hk cause
    unfold State.report
    dsimp only
    rw [hd, hdiagnostics]
    split
    · exact ⟨hslots, htextures, husage, hdiagnostics, hnamed, hnamed'⟩
    · exact ⟨hslots, htextures, husage, rfl, hnamed, hnamed'⟩

theorem sample (h : s.Parallel settings place g g' noted u) (texture : SceneTexture) :
    (s.sample texture).Parallel settings place g g' noted (u.sample texture) := by
  refine h.update (s.sameCourse_sample texture) (u.sameCourse_sample texture) ?_ fun hn => ?_
  · rw [(SameCode.sample u texture).writer, (SameCode.sample s texture).writer, h.writer]
  · obtain ⟨hslots, htextures, husage, hdiagnostics, hnamed, hnamed'⟩ := h.notes hn
    unfold State.sample
    rw [htextures]
    split
    · exact ⟨hslots, htextures, husage, hdiagnostics, hnamed, hnamed'⟩
    · exact ⟨hslots, rfl, husage, hdiagnostics, hnamed, hnamed'⟩

/-- A slot is handed out in both evaluations or in none. -/
theorem claim (h : s.Parallel settings place g g' noted u) (hn : noted)
    (hk : KeyTwins place s.instances u.instances key key') (input : BoxId) :
    (u.claim settings key' (key'.sibling input)).1 = (s.claim settings key (key.sibling input)).1 ∧
      (s.claim settings key (key.sibling input)).2.Parallel settings place g g' noted
        (u.claim settings key' (key'.sibling input)).2 := by
  have hnotes := h.notes hn
  have hlength := hnotes.slots.length_eq
  unfold State.claim
  rw [← hlength]
  split
  · exact ⟨rfl, h⟩
  · split
    · exact ⟨rfl, h⟩
    · refine ⟨rfl, ?_⟩
      refine h.update ⟨rfl, rfl, rfl, rfl, rfl⟩ ⟨rfl, rfl, rfl, rfl, rfl⟩ h.writer fun _ => ?_
      exact { hnotes with
        slots := List.rel_append hnotes.slots (.cons ⟨hk, rfl, h.context⟩ .nil) }

/-! ### Memory and the nodes under way -/

theorem withMemory {m m' : List (BoxKey × Value Local)}
    (h : s.Parallel settings place g g' noted u)
    (hm : ∀ key key', KeyTwins place s.instances u.instances key key' →
      m'.lookup key' = m.lookup key)
    (hknown : ∀ key, (m.lookup key).isSome → key.graph < s.instances.length)
    (hmatched : ∀ key', (m'.lookup key').isSome →
      ∃ key, KeyTwins place s.instances u.instances key key') :
    { s with memory := m }.Parallel settings place g g' noted { u with memory := m' } :=
  { h with
    memory := hm
    known := hknown
    matched := hmatched
    notes := fun hn => { h.notes hn with } }

theorem remember (h : s.Parallel settings place g g' noted u)
    (hk : KeyTwins place s.instances u.instances key key') (value : Option (Value Local)) :
    (s.remember key value).Parallel settings place g g' noted (u.remember key' value) := by
  have hbox := h.paired.isSome_box? hk
  by_cases hb : (s.box? key).isSome
  · have hself := remembered?_remember_self hb value
    have hself' := remembered?_remember_self (hbox.trans hb) value
    have hother := fun key₁ (hne : key₁ ≠ key) => remembered?_remember_of_ne s hne value
    have hother' := fun key₁ (hne : key₁ ≠ key') => remembered?_remember_of_ne u hne value
    obtain ⟨m, hm⟩ := s.remember_eq key value
    obtain ⟨m', hm'⟩ := u.remember_eq key' value
    rw [hm] at hself hother ⊢
    rw [hm'] at hself' hother' ⊢
    refine h.withMemory (fun key₁ key₁' hk₁ => ?_) (fun key₁ hsome => ?_) fun key₁' hsome => ?_
    · by_cases he : key₁ = key
      · subst he
        obtain rfl := h.paired.key_right_unique hk hk₁
        exact hself'.trans hself.symm
      · have he' : key₁' ≠ key' := by
          rintro rfl
          exact he (h.paired.key_left_unique hk₁ hk)
        exact (hother' key₁' he').trans ((h.memory key₁ key₁' hk₁).trans (hother key₁ he).symm)
    · by_cases he : key₁ = key
      · rw [he]
        exact h.paired.lt_left hk.place.graph
      · exact h.known key₁ (hother key₁ he ▸ hsome)
    · by_cases he : key₁' = key'
      · rw [he]
        exact ⟨key, hk⟩
      · exact h.matched key₁' (hother' key₁' he ▸ hsome)
  · rw [State.remember, State.remember, if_neg hb, if_neg (hbox ▸ hb)]
    exact h

theorem mem_active_iff {p p' : Nat × Nat} (h : s.Parallel settings place g g' noted u)
    (hp : NodeTwins place s.instances u.instances p p') : p' ∈ u.active ↔ p ∈ s.active := by
  have hactive := h.active
  generalize s.active = l, u.active = l' at hactive
  induction hactive with
  | nil => simp
  | @cons q q' _ _ hq _ ih =>
    have hhead : p' = q' ↔ p = q := by
      constructor
      · rintro rfl
        exact h.paired.node_left_unique hp hq
      · rintro rfl
        exact h.paired.node_right_unique hp hq
    rw [List.mem_cons, List.mem_cons]
    exact or_congr hhead ih

theorem start {site site' : Site} (h : s.Parallel settings place g g' noted u)
    (hk : KeyTwins place s.instances u.instances site.key site'.key) :
    (s.start site).Parallel settings place g g' noted (u.start site') :=
  { h with
    active := .cons hk.place h.active
    notes := fun hn => { h.notes hn with } }

theorem finish {a a' : List (Nat × Nat)} (h : s.Parallel settings place g g' noted u)
    (hk : KeyTwins place s.instances u.instances key key') (ha : s.active = key.place :: a)
    (ha' : u.active = key'.place :: a') (v : Value Local) :
    (s.finish key v).Parallel settings place g g' noted (u.finish key' v) := by
  have hactive := h.active
  rw [ha, ha'] at hactive
  have herase : s.active.erase (key.graph, key.node) = a := by
    rw [ha]
    exact List.erase_cons_head key.place a
  have herase' : u.active.erase (key'.graph, key'.node) = a' := by
    rw [ha']
    exact List.erase_cons_head key'.place a'
  have hdone : { s with active := a }.Parallel settings place g g' noted
      { u with active := a' } :=
    { h with
      active := (List.forall₂_cons.mp hactive).2
      notes := fun hn => { h.notes hn with } }
  unfold State.finish
  rw [herase, herase']
  dsimp only
  rw [hdone.memory key key' hk]
  split
  · exact hdone.remember hk (some v)
  · exact hdone

/-! ### Calls -/

theorem withContext {c c' : CallContext} (h : s.Parallel settings place g g' noted u)
    (hc : ContextTwins place s.instances u.instances c c') :
    { s with context := c }.Parallel settings place g g' noted { u with context := c' } :=
  { h with
    context := hc
    notes := fun hn => { h.notes hn with } }

/-- The first evaluation gets a new graph, the second one has or gets a twin of it. -/
theorem extend {inst : Instance} {right : List Instance} {j : Nat}
    (h : s.Parallel settings place g g' noted u) (hr : u.instances <+: right)
    (hp : Paired settings place g g' (s.instances ++ [inst]) right)
    (hj : Twins place (s.instances ++ [inst]) right s.instances.length j)
    (hnamed : noted → Named (s.instances ++ [inst]) ∧ Named right) :
    { s with instances := s.instances ++ [inst] }.Parallel settings place g g' noted
      { u with instances := right } := by
  have hl : s.instances <+: s.instances ++ [inst] := List.prefix_append _ _
  have hlast : ∀ i < (s.instances ++ [inst]).length, i < s.instances.length ∨
      i = s.instances.length := by
    intro i hi
    rw [List.length_append, List.length_singleton] at hi
    omega
  constructor
  case paired => exact hp
  case total =>
    intro i hi
    rcases hlast i hi with hi | rfl
    · obtain ⟨j', hj'⟩ := h.total i hi
      exact ⟨j', hj'.mono hl hr⟩
    · exact ⟨j, hj⟩
  case context => exact h.context.mono hl hr
  case active => exact h.active.imp fun _ _ hp => hp.mono hl hr
  case memory =>
    intro key key' hk
    rcases hlast key.graph (hp.lt_left hk.place.graph) with hlt | hnew
    · -- an older graph has the twin that it had before
      obtain ⟨j', hj'⟩ := h.total key.graph hlt
      have hgraph : key'.graph = j' := hp.right_unique hk.place.graph (hj'.mono hl hr)
      have htwins : Twins place s.instances u.instances key.graph key'.graph := hgraph ▸ hj'
      exact h.memory key key' ⟨⟨htwins, hk.place.node⟩, hk.box⟩
    · -- nothing is remembered of the new graph, nor of its twin
      have hleft : s.remembered? key = none := by
        refine Option.not_isSome_iff_eq_none.mp fun hsome => ?_
        have hlt := h.known key hsome
        omega
      have hright : u.remembered? key' = none := by
        refine Option.not_isSome_iff_eq_none.mp fun hsome => ?_
        obtain ⟨key₀, hk₀⟩ := h.matched key' hsome
        have hlt := h.paired.lt_left hk₀.place.graph
        have heq := hp.key_left_unique (hk₀.mono hl hr) hk
        rw [heq] at hlt
        exact absurd hnew (Nat.ne_of_lt hlt)
      exact hright.trans hleft.symm
  case known =>
    intro key hsome
    exact Nat.lt_of_lt_of_le (h.known key hsome) hl.length_le
  case matched =>
    intro key' hsome
    obtain ⟨key, hk⟩ := h.matched key' hsome
    exact ⟨key, hk.mono hl hr⟩
  case writer => exact h.writer
  case stage => exact h.stage
  case notes =>
    intro hn
    exact { h.notes hn with
      slots := (h.notes hn).slots.imp fun _ _ hslot => hslot.mono hl hr
      named := (hnamed hn).1
      named' := (hnamed hn).2 }

/-- The twin of a graph is found for the corresponding call. -/
theorem instanceOf?_eq {i j : Nat} {o : Origin} {p' : Nat × Nat}
    (h : s.Parallel settings place g g' noted u) (ho : origin? s.instances i = some o)
    (hp : NodeTwins place s.instances u.instances (o.caller, o.site) p')
    (hj : Twins place s.instances u.instances i j) : u.instanceOf? p'.1 p'.2 = some j := by
  cases hj with
  | root => simp [h.paired.tree.origin?_root] at ho
  | @call _ _ o₁ o' ho₁ ho' hc hs =>
    obtain rfl : o₁ = o := Option.some.inj (ho₁.symm.trans ho)
    have hplace : p' = (o'.caller, o'.site) := h.paired.node_right_unique hp ⟨hc, hs⟩
    rw [hplace]
    exact h.paired.tree'.instanceOf?_eq ho'

theorem instantiate {library : Library} {site site' : Site} {function : MaterialFunction}
    {earlier graph : Nat} (h : s.Parallel settings place g g' noted u)
    (hr : settings.resolver = ⟨[library]⟩) (hs : s.Sound settings g) (hu : u.Sound settings g')
    (hl : (Task.node site).Located s) (hl' : (Task.node site').Located u)
    (hkey : KeyTwins place s.instances u.instances site.key site'.key)
    (hm : site.Moved (placeIn place site.key.graph) site')
    (hk : site.node.kind = .materialFunction)
    (hload : settings.resolver.load earlier site.node.callee = .ok function)
    (hc : s.isCalling site.node.callee = false)
    (hi : s.instantiate site function = (graph, s')) :
    ∃ graph' u', u.instantiate site' function = (graph', u') ∧
      s'.Parallel settings place g g' noted u' ∧
      Twins place s'.instances u'.instances graph graph' := by
  have hn := node?_of_site? hl.2
  have hn' := node?_of_site? hl'.2
  have hload' : settings.resolver.load earlier site'.node.callee = .ok function := by
    rw [hm.alike.callee]
    exact hload
  have hc' : u.isCalling site'.node.callee = false := by
    rw [hm.alike.callee, h.paired.isCalling h.context]
    exact hc
  have hsound := (hs.instantiate hl.1 hl.2 hk hload hc hi).1
  cases hold : s.instanceOf? site.key.graph site.key.node with
  | some i =>
    rw [instantiate_of_some hold] at hi
    cases hi
    obtain ⟨o, ho, hcaller, hsite⟩ := instanceOf?_some hold
    obtain ⟨j, hj⟩ := h.total graph (lt_of_origin? ho)
    have hplace : NodeTwins place s.instances u.instances (o.caller, o.site) site'.key.place := by
      rw [hcaller, hsite]
      exact hkey.place
    exact ⟨j, u, instantiate_of_some (h.instanceOf?_eq ho hplace hj) function, h, hj⟩
  | none =>
    rw [instantiate_of_none hold] at hi
    cases hi
    have hprefix := List.prefix_append s.instances [s.newInstance site function]
    have hnamed := fun hn' => (h.notes hn').named.append hn function.graph function
    cases hold' : u.instanceOf? site'.key.graph site'.key.node with
    | some j =>
      -- the second evaluation has made the graph before, for the same function
      obtain ⟨o', ho', hcaller, hsite⟩ := instanceOf?_some hold'
      have hfunction : o'.function = function :=
        h.paired.tree'.function_eq hr ho' (by rw [hcaller, hsite]; exact hn') hload'
      have hcallers := hkey.place.graph.mono hprefix (List.prefix_refl u.instances)
      have htwins := Twins.call (s.origin?_newInstance site function) ho' (hcaller ▸ hcallers)
        (hsite.trans hkey.place.node) hfunction
      refine ⟨j, u, instantiate_of_some hold' function, ?_, htwins⟩
      have hrecord := h.withTrace (.instantiated function.id s.instances.length :: s.trace) u.trace
      exact hrecord.extend (List.prefix_refl _) ⟨h.paired.embeds, hsound.tree, h.paired.tree'⟩
        htwins fun hn => ⟨hnamed hn, (h.notes hn).named'⟩
    | none =>
      have hi' := instantiate_of_none hold' function
      have hsound' := (hu.instantiate hl'.1 hl'.2 (hm.node.kind.trans hk) hload' hc' hi').1
      have hprefix' := List.prefix_append u.instances [u.newInstance site' function]
      have htwins := Twins.call (s.origin?_newInstance site function)
        (u.origin?_newInstance site' function) (hkey.place.graph.mono hprefix hprefix')
        hkey.place.node rfl
      refine ⟨_, _, hi', ?_, htwins⟩
      have hrecord := h.withTrace (.instantiated function.id s.instances.length :: s.trace)
        (.instantiated function.id u.instances.length :: u.trace)
      exact hrecord.extend hprefix' ⟨h.paired.embeds, hsound.tree, hsound'.tree⟩ htwins
        fun hn => ⟨hnamed hn, (h.notes hn).named'.append hn' function.graph function⟩

/-- A call that makes or finds its graph in one evaluation does so in the other. -/
theorem made {library : Library} {site site' : Site} {function : MaterialFunction} {graph : Nat}
    (h : s.Parallel settings place g g' noted u) (hr : settings.resolver = ⟨[library]⟩)
    (hs : s.Sound settings g) (hu : u.Sound settings g') (hl : (Task.node site).Located s)
    (hl' : (Task.node site').Located u)
    (hkey : KeyTwins place s.instances u.instances site.key site'.key)
    (hm : site.Moved (placeIn place site.key.graph) site')
    (hk : site.node.kind = .materialFunction)
    (hload : settings.resolver.load s.loads.length site.node.callee = .ok function)
    (hc : s.isCalling site.node.callee = false)
    (hi : (s.ask site.node.callee).instantiate site function = (graph, s')) :
    ∃ graph' u', settings.resolver.load u.loads.length site'.node.callee = .ok function ∧
      u.isCalling site'.node.callee = false ∧
      (u.ask site'.node.callee).instantiate site' function = (graph', u') ∧
      s'.Parallel settings place g g' noted u' ∧
      KeyTwins place s'.instances u'.instances site.key site'.key ∧
      Twins place s'.instances u'.instances graph graph' ∧
      Engine.outputNode? u' site' function graph' = Engine.outputNode? s' site function graph ∧
      ∀ output, Option.Rel (KeyTwins place s'.instances u'.instances)
        (s'.producer? ⟨graph, output, 0⟩) (u'.producer? ⟨graph', output, 0⟩) := by
  obtain ⟨graph', u', hi', hp, htwins⟩ :=
    (h.ask site.node.callee).instantiate hr hs.ask hu.ask hl hl' hkey hm hk hload hc hi
  obtain ⟨-, o, ho, -⟩ := hs.ask.instantiate hl.1 hl.2 hk hload hc hi
  obtain ⟨h0, -⟩ := hp.paired.called ho htwins
  rw [← hm.alike.callee] at hi'
  refine ⟨graph', u', ?_, ?_, hi', hp, ?_, htwins, hp.paired.outputNode? hm.box ho htwins, ?_⟩
  · rw [hm.alike.callee, ← hload, hr, Resolver.load_single, Resolver.load_single]
  · rw [hm.alike.callee, h.paired.isCalling h.context, hc]
  · exact hkey.mono (s.grows_made hi).instances (u.grows_made hi').instances
  · exact fun output => hp.paired.producer? (htwins.key h0 output 0)

/-- A call found for a graph in one evaluation corresponds to the one found in the other. -/
theorem currentFrame? {site site' : Site} {frame : CallFrame}
    (h : s.Parallel settings place g g' noted u)
    (hkey : KeyTwins place s.instances u.instances site.key site'.key)
    (hf : s.context.currentFrame? = some frame) (hg : frame.graph = site.key.graph) :
    ∃ frame', u.context.currentFrame? = some frame' ∧ frame'.graph = site'.key.graph ∧
      FrameTwins place s.instances u.instances frame frame' := by
  obtain ⟨frame', hf', hframe⟩ := optionRel_some (h.paired.currentFrame? h.context) hf
  have hgraph : Twins place s.instances u.instances frame.graph site'.key.graph :=
    hg ▸ hkey.place.graph
  exact ⟨frame', hf', h.paired.right_unique hframe.graph hgraph, hframe⟩

/-! ### Requests of recipes -/

theorem effect {r r' : Recipe Local (Value Local)} (h : s.Parallel settings place g g' noted u)
    (hk : KeyTwins place s.instances u.instances key key') (hq : noted ∨ r.Claimless)
    (he : r.effect? settings key s = some (r', s')) :
    ∃ u', r.effect? settings key' u = some (r', u') ∧ s'.Parallel settings place g g' noted u' := by
  cases r with
  | done | operand => cases he
  | declare type init next =>
    cases he
    exact ⟨_, by rw [Recipe.effect?, h.writer], h.write _⟩
  | block body next =>
    cases he
    exact ⟨_, by rw [Recipe.effect?, h.writer], h.write _⟩
  | comment text next =>
    cases he
    refine ⟨_, rfl, ?_⟩
    split
    · rw [h.writer]
      exact h.write _
    · exact h
  | report cause next =>
    cases he
    exact ⟨_, rfl, h.report hk cause⟩
  | use feature next =>
    cases he
    exact ⟨_, rfl, h.use feature⟩
  | sample texture next =>
    cases he
    exact ⟨_, rfl, h.sample texture⟩
  | remember box value next =>
    cases he
    exact ⟨_, rfl, h.remember (hk.sibling box) value⟩
  | claim input next =>
    rcases hq with hn | hc
    · obtain ⟨heq, hclaim⟩ := h.claim hn hk input
      cases he
      exact ⟨_, by rw [Recipe.effect?, heq], hclaim⟩
    · cases hc

end Parallel

end State

/-! ### Whole evaluations -/

namespace Task

/-- Corresponding tasks. What is left of a recipe is the same for both. -/
inductive Twins (place : Nat → Nat) (left right : List Instance) : Task → Task → Prop
  | box {key key'} (h : KeyTwins place left right key key') :
      Twins place left right (.box key) (.box key')
  | node {site site'} (h : KeyTwins place left right site.key site'.key)
      (hm : site.Moved (placeIn place site.key.graph) site') :
      Twins place left right (.node site) (.node site')
  | recipe {key key'} (h : KeyTwins place left right key key') (r : Recipe Local (Value Local)) :
      Twins place left right (.recipe key r) (.recipe key' r)

/-- The task claims no slots, unless what is noted is compared. -/
def Quiet (noted : Prop) (s : State) (t : Task) : Prop :=
  noted ∨ s.stage = .vertex ∧ t.Claimless .vertex

theorem Quiet.imp {noted : Prop} {s s' : State} {t t' : Task} (h : t.Quiet noted s)
    (hs : s'.stage = s.stage) (ht : t.Claimless .vertex → t'.Claimless .vertex) :
    t'.Quiet noted s' :=
  h.imp_right fun h => ⟨hs.trans h.1, ht h.2⟩

end Task

/-- Corresponding tasks in corresponding states have the same value, and end in corresponding
states. -/
theorem Runs.parallel {settings : Settings} {library : Library} {place : Nat → Nat} {g g' : Graph}
    {noted : Prop} {t t' : Task} {s s' u : State} {v : Value Local}
    (hr : settings.resolver = ⟨[library]⟩) (h : Runs settings t s v s')
    (hs : s.Sound settings g) (hu : u.Sound settings g') (hl : t.Located s) (hl' : t'.Located u)
    (hq : t.Quiet noted s) (ht : t.Twins place s.instances u.instances t')
    (hp : s.Parallel settings place g g' noted u) :
    ∃ u', Runs settings t' u v u' ∧ s'.Parallel settings place g g' noted u' := by
  -- one library answers alike however often it has been asked
  have hload (a b : Nat) (id : AssetId) :
      settings.resolver.load a id = settings.resolver.load b id := by
    rw [hr, Resolver.load_single, Resolver.load_single]
  -- each rule of the first run is also the next rule of the second one: what it looks up has a twin
  -- or is missing in both
  induction h generalizing t' u with
  | @leaf _ s v _ h =>
    cases h with
    | remembered hm =>
      cases ht with
      | box hk => exact ⟨u, .leaf (.remembered ((hp.memory _ _ hk).trans hm)), hp⟩
    | absent hm hsite =>
      cases ht with
      | box hk =>
        have hsite' := optionRel_none (hp.paired.site? hk) hsite
        exact ⟨u, .leaf (.absent ((hp.memory _ _ hk).trans hm) hsite'), hp⟩
    | reentered hm hsite ha =>
      cases ht with
      | box hk =>
        obtain ⟨site', hsite', hmoved⟩ := optionRel_some (hp.paired.site? hk) hsite
        refine ⟨_, ?_, hp.report hk _⟩
        rw [← hp.paired.boxType hk, ← hmoved.node.id]
        exact .leaf (.reentered ((hp.memory _ _ hk).trans hm) hsite'
          ((hp.mem_active_iff hk.place).mpr ha))
    | notLoaded hk hl₁ =>
      cases ht with
      | @node _ site' hkey hm =>
        rw [hload _ u.loads.length, ← hm.alike.callee] at hl₁
        rw [← hm.alike.callee]
        refine ⟨_, .leaf (.notLoaded (hm.node.kind.trans hk) hl₁), ?_⟩
        exact ((hp.ask _).withTrace _ _).report hkey _
    | recursive hk hl₁ hc =>
      cases ht with
      | @node _ site' hkey hm =>
        rw [← hp.paired.isCalling hp.context] at hc
        rw [hload _ u.loads.length] at hl₁
        rw [← hm.alike.callee] at hl₁ hc ⊢
        exact ⟨_, .leaf (.recursive (hm.node.kind.trans hk) hl₁ hc), (hp.ask _).report hkey _⟩
    | unlisted hk hl₁ hc hi ho =>
      cases ht with
      | @node _ site' hkey hm =>
        obtain ⟨graph', u₁, hl₁', hc', hi', hp₁, hkey₁, -, houtput, -⟩ :=
          hp.made hr hs hu hl hl' hkey hm hk hl₁ hc hi
        rw [← hm.box]
        exact ⟨_, .leaf (.unlisted (hm.node.kind.trans hk) hl₁' hc' hi' (houtput.trans ho)),
          hp₁.report hkey₁ _⟩
    | @unfed _ _ _ _ _ output hk hl₁ hc hi ho hproducer =>
      cases ht with
      | @node _ site' hkey hm =>
        obtain ⟨graph', u₁, hl₁', hc', hi', hp₁, -, -, houtput, hrel⟩ :=
          hp.made hr hs hu hl hl' hkey hm hk hl₁ hc hi
        exact ⟨u₁, .leaf (.unfed (hm.node.kind.trans hk) hl₁' hc' hi' (houtput.trans ho)
          (optionRel_none (hrel output) hproducer)), hp₁⟩
    | @outside site _ hk hf =>
      cases ht with
      | @node _ site' hkey hm =>
        refine ⟨_, .leaf (.outside (hm.node.kind.trans hk) fun frame' hf' hg' => ?_),
          hp.report hkey _⟩
        obtain ⟨frame, hframe, htwins⟩ :=
          optionRel_some_right (hp.paired.currentFrame? hp.context) hf'
        -- a frame of the second run for this graph would be the twin of one of the first run
        have hgraph : Twins place s.instances u.instances site.key.graph frame'.graph :=
          hg' ▸ hkey.place.graph
        exact hf frame hframe (hp.paired.left_unique htwins.graph hgraph)
    | @undeclared site _ _ hk hf hg ha =>
      cases ht with
      | @node _ site' hkey hm =>
        obtain ⟨frame', hf', hg', hframe⟩ := hp.currentFrame? hkey hf hg
        have ha' := optionRel_none (hframe.argument? site.node.id) ha
        rw [← hm.node.id] at ha' ⊢
        exact ⟨_, .leaf (.undeclared (hm.node.kind.trans hk) hf' hg' ha'), hp.report hkey _⟩
    | done =>
      cases ht with
      | recipe hk => exact ⟨u, .leaf .done, hp⟩
  | @unary _ s v _ _ h hrun ih =>
    obtain ⟨hs₁, hl₁⟩ := h.sound hs hl
    cases h with
    | dispatched hm hsite ha =>
      cases ht with
      | @box _ key' hk =>
        obtain ⟨site', hsite', hmoved⟩ := optionRel_some (hp.paired.site? hk) hsite
        have ha' : key'.place ∉ u.active := mt (hp.mem_active_iff hk.place).mp ha
        have hnode' := hl'.node hsite'
        obtain rfl := State.key_of_site? hsite
        obtain rfl := State.key_of_site? hsite'
        obtain ⟨u', hrun', hp'⟩ := ih hs₁ (hu.start hl' hsite' ha') hl₁ hnode'
          (hq.imp rfl fun _ _ => rfl) (.node hk hmoved) (hp.start hk)
        refine ⟨_, .unary (.dispatched ((hp.memory _ _ hk).trans hm) hsite' ha') hrun', ?_⟩
        exact hp'.finish (hk.mono hrun.grows.instances hrun'.grows.instances) hrun.grows.active
          hrun'.grows.active v
    | @plain site _ _ _ hc hi =>
      cases ht with
      | @node _ site' hk hmoved =>
        have hrecipe : (site'.recipe settings.domain u.stage : Recipe Local _) =
            site.recipe settings.domain s.stage := by rw [hmoved.alike.recipe, hp.stage]
        have hlocated := hl'.recipe settings.domain u.stage
        rw [hrecipe] at hlocated
        have hquiet : (Task.recipe site.key (site.recipe settings.domain s.stage)).Quiet noted s :=
          hq.imp_right fun hv => ⟨hv.1, Site.recipe_claimless (fun _ => hv.1) settings.domain⟩
        obtain ⟨u', hrun', hp'⟩ := ih hs₁ hu hl₁ hlocated hquiet (.recipe hk _) hp
        rw [← hrecipe] at hrun'
        have hkind := hmoved.node.kind
        exact ⟨u', .unary (.plain (hkind ▸ hc) (hkind ▸ hi)) hrun', hp'⟩
    | @called site _ function graph s₁ output _ _ _ hk hld hc hi ho hproducer =>
      cases ht with
      | @node _ site' hkey hm =>
        obtain ⟨graph', u₁, hld', hc', hi', hp₁, hkey₁, htwins, houtput, hrel⟩ :=
          hp.made hr hs hu hl hl' hkey hm hk hld hc hi
        obtain ⟨producer', hproducer', hbox⟩ := optionRel_some (hrel output) hproducer
        have hk' := hm.node.kind.trans hk
        obtain ⟨hin', hlin'⟩ := hu.enter hl' hk' hld' hc' hi' hproducer'
        have hframe : FrameTwins place s₁.instances u₁.instances
            ⟨site.key.graph, site.key.node, graph, function⟩
            ⟨site'.key.graph, site'.key.node, graph', function⟩ := ⟨hkey₁.place, htwins, rfl⟩
        obtain ⟨u₂, hrun', hp₂⟩ := ih hs₁ hin' hl₁ hlin'
          (hq.imp (s.grows_made hi).stage fun _ => trivial) (.box hbox)
          (hp₁.withContext (hp₁.context.enter hframe))
        exact ⟨_, .unary (.called hk' hld' hc' hi' (houtput.trans ho) hproducer') hrun',
          hp₂.withContext hp₂.context.leave⟩
    | @passed site _ _ _ _ _ _ hk hf hg ha hproducer =>
      cases ht with
      | @node _ site' hkey hm =>
        obtain ⟨frame', hf', hg', hframe⟩ := hp.currentFrame? hkey hf hg
        obtain ⟨box', ha', hbox⟩ := optionRel_some (hframe.argument? site.node.id) ha
        obtain ⟨producer', hproducer', hkp⟩ := optionRel_some (hp.paired.producer? hbox) hproducer
        rw [← hm.node.id] at ha'
        obtain ⟨hin', hlin'⟩ := hu.toCaller hl' hf' ha' hproducer'
        obtain ⟨u₁, hrun', hp₁⟩ := ih hs₁ hin' hl₁ hlin' (hq.imp rfl fun _ => trivial) (.box hkp)
          (hp.withContext hp.context.inCaller)
        have hgraph := hframe.graph.mono hrun.grows.instances hrun'.grows.instances
        exact ⟨_, .unary (.passed (hm.node.kind.trans hk) hf' hg' ha' hproducer') hrun',
          hp₁.withContext (hp₁.context.back hgraph)⟩
    | @defaulted site _ _ _ _ _ hk hf hg ha hproducer =>
      cases ht with
      | @node _ site' hkey hm =>
        obtain ⟨frame', hf', hg', hframe⟩ := hp.currentFrame? hkey hf hg
        obtain ⟨box', ha', hbox⟩ := optionRel_some (hframe.argument? site.node.id) ha
        have hproducer' := optionRel_none (hp.paired.producer? hbox) hproducer
        rw [← hm.node.id] at ha'
        have hlocated := hl'.default
        rw [hm.alike.operandOrParam] at hlocated
        obtain ⟨u₁, hrun', hp₁⟩ := ih hs₁ hu hl₁ hlocated
          (hq.imp rfl fun _ => (Recipe.silent_operandOrParam _ _ _).claimless) (.recipe hkey _) hp
        rw [← hm.alike.operandOrParam] at hrun'
        exact ⟨u₁, .unary (.defaulted (hm.node.kind.trans hk) hf' hg' ha' hproducer') hrun', hp₁⟩
    | @unconnected _ _ box _ _ _ hproducer =>
      cases ht with
      | @recipe _ key' hk =>
        have hproducer' := optionRel_none (hp.paired.producer? (hk.sibling box)) hproducer
        obtain ⟨u₁, hnext', hp₁⟩ := ih hs₁ hu hl₁ (hl'.answer (.refl _) none)
          (hq.imp rfl fun hc => Recipe.Claimless.answer hc _) (.recipe hk _) hp
        exact ⟨u₁, .unary (.unconnected hproducer') hnext', hp₁⟩
    | effect he =>
      cases ht with
      | @recipe _ key' hk =>
        obtain ⟨u₁, he', hp₁⟩ := hp.effect hk (hq.imp_right fun hv => hv.2) he
        obtain ⟨hu₁, hl₁'⟩ := hu.effect hl' he'
        have hkey := hk.mono (s.grows_effect he).instances (u.grows_effect he').instances
        obtain ⟨u₂, hnext', hp₂⟩ := ih hs₁ hu₁ hl₁ hl₁'
          (hq.imp (s.grows_effect he).stage fun hc => (Recipe.Claimless.effect hc he).1)
          (.recipe hkey _) hp₁
        exact ⟨u₂, .unary (.effect he') hnext', hp₂⟩
  | binary h hrun _ ih ihn =>
    obtain ⟨hs₁, hl₁⟩ := h.sound_first hs hl
    obtain ⟨hs₂, hl₂⟩ := h.sound_second hl hrun (hrun.sound hs₁ hl₁)
    cases h with
    | @connected _ _ box _ _ _ _ _ _ hproducer =>
      cases ht with
      | @recipe _ key' hk =>
        obtain ⟨producer', hproducer', hkp⟩ :=
          optionRel_some (hp.paired.producer? (hk.sibling box)) hproducer
        obtain ⟨u₁, hrun', hp₁⟩ := ih hs₁ hu hl₁ (hl'.fed hproducer')
          (hq.imp rfl fun _ => trivial) (.box hkp) hp
        have hkey := hk.mono hrun.grows.instances hrun'.grows.instances
        obtain ⟨u₂, hnext', hp₂⟩ := ihn hs₂
          (hrun'.sound hu (hl'.fed hproducer')) hl₂ (hl'.answer hrun'.grows _)
          (hq.imp hrun.grows.stage fun hc => Recipe.Claimless.answer hc _) (.recipe hkey _) hp₁
        exact ⟨u₂, .binary (.connected hproducer') hrun' hnext', hp₂⟩

/-! ### Stages -/

section

variable {settings : Settings} {library : Library} {place : Nat → Nat} {g g' : Graph}
  {noted : Prop} {s u : State}

/-- The state in which an evaluation starts, and any state between requests in which nothing is
remembered or written. -/
theorem State.Idle.parallel (hg : g.Embeds place g') (hu : u.Idle settings g')
    (hm : u.memory = []) (hw : u.writer = {})
    (hn : noted → { ofGraph g with stage := u.stage }.SameNotes place u) :
    { ofGraph g with stage := u.stage }.Parallel settings place g g' noted u where
  paired := ⟨hg, CallTree.single settings g, hu.sound.tree⟩
  total i hi := by
    obtain rfl : i = 0 := Nat.lt_one_iff.mp hi
    exact ⟨0, .root⟩
  context := by
    rw [hu.context]
    exact ⟨.nil, .cons .root .nil⟩
  active := by
    rw [hu.active]
    exact .nil
  memory key key' _ := by
    rw [remembered?, hm]
    rfl
  known key h := by cases h
  matched key' h := by
    rw [remembered?, hm] at h
    cases h
  writer := hw
  stage := rfl
  notes := hn

/-- Corresponding states between requests, in which no slots are claimed unless what is noted is
compared. -/
structure State.IdlePair (settings : Settings) (place : Nat → Nat) (g g' : Graph) (noted : Prop)
    (s u : State) : Prop where
  idle : s.Idle settings g
  idle' : u.Idle settings g'
  parallel : s.Parallel settings place g g' noted u
  quiet : noted ∨ s.stage = .vertex

theorem CallTree.keyTwins_material (place : Nat → Nat) (left right : List Instance) (node : Nat)
    (box : BoxId) : KeyTwins place left right ⟨0, node, box⟩ ⟨0, place node, box⟩ :=
  ⟨⟨.root, rfl⟩, rfl⟩

namespace Generator

variable {e e' : Evaluator}

theorem parameter_pair (hr : settings.resolver = ⟨[library]⟩) (he : Engine.Follows settings g [] e)
    (he' : Engine.Follows settings g' [] e') (h : s.IdlePair settings place g g' noted u)
    (output : Nat) (p : Parameter) :
    (parameter e' (place output) p u).1 = (parameter e output p s).1 ∧
      (parameter e output p s).2.IdlePair settings place g g' noted
        (parameter e' (place output) p u).2 := by
  have hl := p.located h.idle output
  have hl' := p.located h.idle' (place output)
  have hrun := parameter_runs he h.idle output p
  have hrun' := parameter_runs he' h.idle' (place output) p
  have hclaimless : (p.recipe : Recipe Local _).Claimless := (Recipe.silent_feed _ _ _).claimless
  obtain ⟨u', hu', hp⟩ := hrun.parallel hr h.idle.sound h.idle'.sound hl hl'
    (h.quiet.imp_right fun hv => ⟨hv, hclaimless⟩) (.recipe (keyTwins_material ..) _) h.parallel
  obtain ⟨hvalue, rfl⟩ := hrun'.unique hu'
  refine ⟨congrArg (StageOutput.mk p.target) hvalue, h.idle.runs hl hrun, h.idle'.runs hl' hrun',
    hp, ?_⟩
  rw [hrun.grows.stage]
  exact h.quiet

end Generator

end

end ShaderGraph
