import ShaderGraph.Proofs.Parallel

/-! Two evaluations that take the same course. Which boxes are evaluated, and in which order,
depends on the graphs, on the stage and on what is remembered of boxes at all, but not on the values.
So two evaluations that start alike make the same requests and go on alike, whatever their values
are; it is enough that the recipes of nodes keep the likeness. -/

namespace ShaderGraph

/-- The same settings with another number of slots. -/
def Settings.withLimit (settings : Settings) (limit : Nat) : Settings :=
  { settings with slotLimit := limit }

/-- How two evaluations compare that may have different numbers of slots: their values, the code
that they write, the answers to their claims, and what they have written and noted so far. -/
structure Likeness (settings : Settings) (limit : Nat) where
  values : Value Local → Value Local → Prop
  inits : Code Local → Code Local → Prop
  blocks : Code Local → Code Local → Prop
  claims : Claim → Claim → Prop
  writers : Writer → Writer → Prop
  slots : List Slot → List Slot → Prop
  textures : List SceneTexture → List SceneTexture → Prop
  literal : ∀ l, values (.literal l) (.literal l)
  zero : ∀ type, values (.zero type) (.zero type)
  cast : ∀ {v w} target, values v w →
    (∃ v' w', v.cast target = .ok v' ∧ w.cast target = .ok w' ∧ values v' w') ∨
      ∃ e e', v.cast target = .error e ∧ w.cast target = .error e'
  declare : ∀ {w w' init init'} type, writers w w' → inits init init' →
    values (w.declare type init).1 (w'.declare type init').1 ∧
      writers (w.declare type init).2 (w'.declare type init').2
  block : ∀ {w w' body body'}, writers w w' → blocks body body' →
    writers (w.push (.block body)) (w'.push (.block body'))
  comment : ∀ {w w'} text, writers w w' →
    writers (w.push (.comment text)) (w'.push (.comment text))
  claim : ∀ {s u : State} key input, u.context = s.context → slots s.slots u.slots →
    claims (s.claim settings key input).1 (u.claim (settings.withLimit limit) key input).1 ∧
      slots (s.claim settings key input).2.slots
        (u.claim (settings.withLimit limit) key input).2.slots
  sample : ∀ {s u : State} texture, textures s.textures u.textures →
    textures (s.sample texture).textures (u.sample texture).textures

section

variable {settings : Settings} {limit : Nat} {L : Likeness settings limit}

theorem optionRel_getD {α β : Type} {R : α → β → Prop} {a : Option α} {b : Option β} {x : α} {y : β}
    (h : Option.Rel R a b) (hxy : R x y) : R (a.getD x) (b.getD y) := by
  cases h with
  | some h => exact h
  | none => exact hxy

theorem optionRel_isNone {α β : Type} {R : α → β → Prop} {a : Option α} {b : Option β}
    (h : Option.Rel R a b) : b.isNone = a.isNone := by
  cases h <;> rfl

/-! ### Recipes -/

namespace Recipe

variable {α β ι : Type} {Q : α → α → Prop} {P : β → β → Prop} {r r' : Recipe Local α}

/-- The recipe notes something and goes on. -/
inductive Notes : Recipe Local α → Recipe Local α → Prop
  | report (cause : Cause) (next : Recipe Local α) : Notes (.report cause next) next
  | use (feature : Feature) (next : Recipe Local α) : Notes (.use feature next) next

/-- Two recipes that make the same requests as long as they get answers that are alike, and end with
results related by `Q`. What they note may differ. -/
inductive Alike (L : Likeness settings limit) (Q : α → α → Prop) :
    Recipe Local α → Recipe Local α → Prop
  | done {a b} (h : Q a b) : Alike L Q (.done a) (.done b)
  | operand {box next next'}
      (h : ∀ v w, Option.Rel L.values v w → Alike L Q (next v) (next' w)) :
      Alike L Q (.operand box next) (.operand box next')
  | declare {type init init' next next'} (hi : L.inits init init')
      (h : ∀ v w, L.values v w → Alike L Q (next v) (next' w)) :
      Alike L Q (.declare type init next) (.declare type init' next')
  | block {body body' next next'} (hb : L.blocks body body') (h : Alike L Q next next') :
      Alike L Q (.block body next) (.block body' next')
  | comment {text next next'} (h : Alike L Q next next') :
      Alike L Q (.comment text next) (.comment text next')
  | note {r r' next next'} (hr : r.Notes next) (hr' : r'.Notes next') (h : Alike L Q next next') :
      Alike L Q r r'
  | sample {texture next next'} (h : Alike L Q next next') :
      Alike L Q (.sample texture next) (.sample texture next')
  | remember {box value value' next next'} (hv : Option.Rel L.values value value')
      (h : Alike L Q next next') : Alike L Q (.remember box value next) (.remember box value' next')
  | claim {input next next'} (h : ∀ c c', L.claims c c' → Alike L Q (next c) (next' c')) :
      Alike L Q (.claim input next) (.claim input next')

theorem Notes.bind {next : Recipe Local α} (h : r.Notes next) (f : α → Recipe Local β) :
    (r.bind f).Notes (next.bind f) := by
  cases h with
  | report cause => exact .report cause _
  | use feature => exact .use feature _

namespace Alike

theorem bind {f f' : α → Recipe Local β} (h : r.Alike L Q r')
    (hf : ∀ a b, Q a b → (f a).Alike L P (f' b)) : (r >>= f).Alike L P (r' >>= f') := by
  change (r.bind f).Alike L P (r'.bind f')
  induction h with
  | done h => exact hf _ _ h
  | operand _ ih => exact .operand ih
  | declare hi _ ih => exact .declare hi ih
  | block hb _ ih => exact .block hb ih
  | comment _ ih => exact .comment ih
  | note hr hr' _ ih => exact .note (hr.bind f) (hr'.bind f') ih
  | sample _ ih => exact .sample ih
  | remember hv _ ih => exact .remember hv ih
  | claim _ ih => exact .claim ih

theorem mapM {f f' : ι → Recipe Local α} (xs : List ι)
    (h : ∀ x ∈ xs, (f x).Alike L Q (f' x)) :
    (xs.mapM f).Alike L (List.Forall₂ Q) (xs.mapM f') := by
  suffices hloop : ∀ as bs : List α, List.Forall₂ Q as bs →
      (List.mapM.loop f xs as).Alike L (List.Forall₂ Q) (List.mapM.loop f' xs bs) from
    hloop [] [] .nil
  induction xs with
  | nil => exact fun as bs h => .done (List.rel_reverse h)
  | cons x xs ih =>
    intro as bs has
    refine (h x List.mem_cons_self).bind fun a b hab => ?_
    exact ih (fun y hy => h y (List.mem_cons_of_mem x hy)) (a :: as) (b :: bs) (.cons hab has)

theorem operand? (box : BoxId) :
    (Recipe.operand? box).Alike L (Option.Rel L.values) (Recipe.operand? box) :=
  .operand fun _ _ h => .done h

theorem newLocal {init init' : Code Local} (type : ValueType) (hi : L.inits init init') :
    (Recipe.newLocal type init).Alike L L.values (Recipe.newLocal type init') :=
  .declare hi fun _ _ h => .done h

section

variable {v w : Value Local}

theorem castTo (type : ValueType) (h : L.values v w) :
    (Recipe.castTo type v).Alike L L.values (Recipe.castTo type w) := by
  unfold Recipe.castTo
  rcases L.cast type h with ⟨v', w', hv, hw, h'⟩ | ⟨e, e', hv, hw⟩
  · rw [hv, hw]
    exact .done h'
  · rw [hv, hw]
    exact .note (.report _ _) (.report _ _) (.done (L.zero type))

theorem operandOr (box : BoxId) (h : L.values v w) :
    (Recipe.operandOr box v).Alike L L.values (Recipe.operandOr box w) :=
  (operand? box).bind fun _ _ hab => .done (optionRel_getD hab h)

theorem feed (box : BoxId) (type : ValueType) (h : L.values v w) :
    (Recipe.feed box type v).Alike L L.values (Recipe.feed box type w) :=
  (operandOr box h).bind fun _ _ hvw => castTo type hvw

end

theorem paramValue? (site : Site) (i : Nat) :
    Option.Rel L.values (site.paramValue? i) (site.paramValue? i) := by
  cases hp : (site.paramValue? i : Option (Value Local)) with
  | none => exact .none
  | some v =>
    obtain ⟨p, -, hp⟩ := Option.bind_eq_some_iff.mp hp
    obtain ⟨l, -, rfl⟩ := Option.map_eq_some_iff.mp hp
    exact .some (L.literal l)

theorem operandOrParam (site : Site) (box : BoxId) (param : Nat) :
    (Recipe.operandOrParam site box param).Alike L L.values
      (Recipe.operandOrParam site box param) :=
  operandOr box (optionRel_getD (paramValue? site param) (L.zero _))

end Alike

end Recipe

/-! ### States -/

section

variable {α : Type} {V : α → α → Prop}

/-- Pairs with the same keys and related values. -/
abbrev SameKeys (V : α → α → Prop) : List (BoxKey × α) → List (BoxKey × α) → Prop :=
  List.Forall₂ fun p q => q.1 = p.1 ∧ V p.2 q.2

theorem SameKeys.lookup {m m' : List (BoxKey × α)} (h : SameKeys V m m') (key : BoxKey) :
    Option.Rel V (m.lookup key) (m'.lookup key) := by
  induction h with
  | nil => exact .none
  | @cons p q m m' hpq _ ih =>
    obtain ⟨k, a⟩ := p
    obtain ⟨k', b⟩ := q
    obtain ⟨rfl, hab⟩ : k' = k ∧ V a b := hpq
    rw [List.lookup_cons, List.lookup_cons]
    cases key == k' with
    | true => exact .some hab
    | false => exact ih

theorem SameKeys.filter {m m' : List (BoxKey × α)} (h : SameKeys V m m') (key : BoxKey) :
    SameKeys V (m.filter (·.1 != key)) (m'.filter (·.1 != key)) := by
  induction h with
  | nil => exact .nil
  | @cons p q m m' hpq _ ih =>
    rw [List.filter_cons, List.filter_cons, hpq.1]
    split
    · exact .cons hpq ih
    · exact ih

end

/-- The states differ at most in flags, diagnostics and the record. -/
structure State.SameButNotes (s s' : State) : Prop where
  instances : s'.instances = s.instances
  context : s'.context = s.context
  active : s'.active = s.active
  stage : s'.stage = s.stage
  loads : s'.loads = s.loads
  memory : s'.memory = s.memory
  writer : s'.writer = s.writer
  slots : s'.slots = s.slots
  textures : s'.textures = s.textures

namespace State.SameButNotes

theorem record (s : State) (e : Event) : s.SameButNotes (s.record e) :=
  ⟨rfl, rfl, rfl, rfl, rfl, rfl, rfl, rfl, rfl⟩

theorem use (s : State) (feature : Feature) : s.SameButNotes (s.use feature) :=
  ⟨rfl, rfl, rfl, rfl, rfl, rfl, rfl, rfl, rfl⟩

theorem report (s : State) (key : BoxKey) (cause : Cause) :
    s.SameButNotes (s.report key cause) := by
  unfold State.report
  dsimp only
  split <;> exact ⟨rfl, rfl, rfl, rfl, rfl, rfl, rfl, rfl, rfl⟩

end State.SameButNotes

theorem Recipe.Notes.effect? {α : Type} {r next : Recipe Local α} (h : r.Notes next)
    (settings : Settings) (key : BoxKey) (s : State) :
    ∃ s', r.effect? settings key s = some (next, s') ∧ s.SameButNotes s' := by
  cases h with
  | report cause => exact ⟨_, rfl, .report s key cause⟩
  | use feature => exact ⟨_, rfl, .use s feature⟩

/-- States that are alike: the same graphs, stage and context, the same nodes under way, and values
remembered for the same boxes. -/
structure State.Alike (L : Likeness settings limit) (s u : State) : Prop where
  instances : u.instances = s.instances
  context : u.context = s.context
  active : u.active = s.active
  stage : u.stage = s.stage
  loads : u.loads = s.loads
  memory : SameKeys L.values s.memory u.memory
  writers : L.writers s.writer u.writer
  slots : L.slots s.slots u.slots
  textures : L.textures s.textures u.textures

namespace State.Alike

variable {s s' u u' : State} {key : BoxKey} {site : Site} {v w : Value Local}

/-! What is looked up -/

theorem box?_eq (h : s.Alike L u) (key : BoxKey) : u.box? key = s.box? key := by
  rw [box?, box?, instance?, instance?, h.instances]

theorem boxType_eq (h : s.Alike L u) (key : BoxKey) : u.boxType key = s.boxType key := by
  rw [boxType, boxType, h.box?_eq]

theorem site?_eq (h : s.Alike L u) (key : BoxKey) : u.site? key = s.site? key := by
  rw [site?, site?, instance?, instance?, h.instances]

theorem producer?_eq (h : s.Alike L u) (key : BoxKey) : u.producer? key = s.producer? key := by
  rw [producer?, producer?, h.box?_eq]

theorem isCalling_eq (h : s.Alike L u) (id : AssetId) : u.isCalling id = s.isCalling id := by
  unfold isCalling instance?
  rw [h.context, h.instances]

theorem outputNode?_eq (h : s.Alike L u) (site : Site) (function : MaterialFunction)
    (graph : Nat) :
    Engine.outputNode? u site function graph = Engine.outputNode? s site function graph := by
  unfold Engine.outputNode? instance?
  rw [h.instances]

theorem remembered? (h : s.Alike L u) (key : BoxKey) :
    Option.Rel L.values (s.remembered? key) (u.remembered? key) := h.memory.lookup key

/-! What changes -/

theorem of_notes (h : s.Alike L u) (hs : s.SameButNotes s') (hu : u.SameButNotes u') :
    s'.Alike L u' := by
  constructor
  all_goals simp only [hs.instances, hu.instances, hs.context, hu.context, hs.active, hu.active,
    hs.stage, hu.stage, hs.loads, hu.loads, hs.memory, hu.memory, hs.writer, hu.writer, hs.slots,
    hu.slots, hs.textures, hu.textures]
  · exact h.instances
  · exact h.context
  · exact h.active
  · exact h.stage
  · exact h.loads
  · exact h.memory
  · exact h.writers
  · exact h.slots
  · exact h.textures

theorem report (h : s.Alike L u) (key : BoxKey) (cause : Cause) :
    (s.report key cause).Alike L (u.report key cause) :=
  h.of_notes (.report s key cause) (.report u key cause)

theorem withContext (h : s.Alike L u) (c : CallContext) :
    { s with context := c }.Alike L { u with context := c } := { h with context := rfl }

theorem start (h : s.Alike L u) (site : Site) : (s.start site).Alike L (u.start site) :=
  { h with active := congrArg (_ :: ·) h.active }

theorem ask (h : s.Alike L u) (id : AssetId) : (s.ask id).Alike L (u.ask id) :=
  { h with loads := congrArg (· ++ [id]) h.loads }

theorem write {writer writer' : Writer} (h : s.Alike L u) (hw : L.writers writer writer') :
    { s with writer := writer }.Alike L { u with writer := writer' } := { h with writers := hw }

theorem withMemory {m m' : List (BoxKey × Value Local)} (h : s.Alike L u)
    (hm : SameKeys L.values m m') : { s with memory := m }.Alike L { u with memory := m' } :=
  { h with memory := hm }

theorem remember {value value' : Option (Value Local)} (h : s.Alike L u)
    (hv : Option.Rel L.values value value') (key : BoxKey) :
    (s.remember key value).Alike L (u.remember key value') := by
  unfold State.remember
  rw [h.box?_eq]
  split
  · refine h.withMemory ?_
    cases hv with
    | none => exact h.memory.filter key
    | some hv => exact .cons ⟨rfl, hv⟩ (h.memory.filter key)
  · exact h

theorem finish (h : s.Alike L u) (hv : L.values v w) (key : BoxKey) :
    (s.finish key v).Alike L (u.finish key w) := by
  have hdone : { s with active := s.active.erase (key.graph, key.node) }.Alike L
      { u with active := u.active.erase (key.graph, key.node) } :=
    { h with active := by rw [h.active] }
  unfold State.finish
  dsimp only
  rw [optionRel_isNone (hdone.remembered? key)]
  split
  · exact hdone.remember (.some hv) key
  · exact hdone

theorem sample (h : s.Alike L u) (texture : SceneTexture) :
    (s.sample texture).Alike L (u.sample texture) := by
  have hsample (s : State) : ∃ l, s.sample texture = { s with textures := l } := by
    unfold State.sample
    split
    · exact ⟨s.textures, rfl⟩
    · exact ⟨_, rfl⟩
  have htextures := L.sample texture h.textures
  obtain ⟨l, hl⟩ := hsample s
  obtain ⟨l', hl'⟩ := hsample u
  rw [hl, hl'] at htextures ⊢
  exact { h with textures := htextures }

theorem claim (h : s.Alike L u) (key input : BoxKey) :
    L.claims (s.claim settings key input).1 (u.claim (settings.withLimit limit) key input).1 ∧
      (s.claim settings key input).2.Alike L
        (u.claim (settings.withLimit limit) key input).2 := by
  have hclaim (settings : Settings) (s : State) :
      ∃ l, (s.claim settings key input).2 = { s with slots := l } := by
    unfold State.claim
    split
    · exact ⟨s.slots, rfl⟩
    · split
      · exact ⟨s.slots, rfl⟩
      · exact ⟨_, rfl⟩
  obtain ⟨hanswer, hslots⟩ := L.claim key input h.context h.slots
  obtain ⟨l, hl⟩ := hclaim settings s
  obtain ⟨l', hl'⟩ := hclaim (settings.withLimit limit) u
  rw [hl, hl'] at hslots ⊢
  exact ⟨hanswer, { h with slots := hslots }⟩

theorem instantiate {function : MaterialFunction} {graph : Nat} (h : s.Alike L u)
    (hi : s.instantiate site function = (graph, s')) :
    ∃ u', u.instantiate site function = (graph, u') ∧ s'.Alike L u' := by
  have hfound : u.instanceOf? site.key.graph site.key.node =
      s.instanceOf? site.key.graph site.key.node := by
    rw [instanceOf?, instanceOf?, h.instances]
  cases hs : s.instanceOf? site.key.graph site.key.node with
  | some found =>
    rw [instantiate_of_some hs] at hi
    cases hi
    exact ⟨u, instantiate_of_some (hfound.trans hs) function, h⟩
  | none =>
    rw [instantiate_of_none hs] at hi
    cases hi
    have hnew : u.newInstance site function = s.newInstance site function := by
      rw [newInstance, newInstance, h.instances]
    refine ⟨{ u.record (.instantiated function.id s.instances.length) with
      instances := s.instances ++ [s.newInstance site function] }, ?_, { h with instances := rfl }⟩
    rw [instantiate_of_none (hfound.trans hs), hnew, h.instances]

/-- The next requests of recipes that are alike. -/
theorem effect {r r' r₁ : Recipe Local (Value Local)} (h : s.Alike L u)
    (hr : r.Alike L L.values r') (he : r.effect? settings key s = some (r₁, s')) :
    ∃ r₁' u', r'.effect? (settings.withLimit limit) key u = some (r₁', u') ∧
      r₁.Alike L L.values r₁' ∧ s'.Alike L u' := by
  cases hr with
  | done => cases he
  | operand => cases he
  | @declare type _ _ _ _ hi hn =>
    cases he
    obtain ⟨hvalue, hwriters⟩ := L.declare type h.writers hi
    exact ⟨_, _, rfl, hn _ _ hvalue, h.write hwriters⟩
  | block hb hn =>
    cases he
    exact ⟨_, _, rfl, hn, h.write (L.block h.writers hb)⟩
  | comment hn =>
    cases he
    refine ⟨_, _, rfl, hn, ?_⟩
    change State.Alike L _ (if settings.comments then _ else _)
    split
    · exact h.write (L.comment _ h.writers)
    · exact h
  | note hnote hnote' hn =>
    obtain ⟨s₁, hs, hsame⟩ := hnote.effect? settings key s
    obtain ⟨u', hu, hsame'⟩ := hnote'.effect? (settings.withLimit limit) key u
    obtain ⟨rfl, rfl⟩ := Prod.mk.inj (Option.some.inj (hs.symm.trans he))
    exact ⟨_, u', hu, hn, h.of_notes hsame hsame'⟩
  | sample hn =>
    cases he
    exact ⟨_, _, rfl, hn, h.sample _⟩
  | remember hv hn =>
    cases he
    exact ⟨_, _, rfl, hn, h.remember hv _⟩
  | claim hn =>
    cases he
    obtain ⟨hanswer, hslots⟩ := h.claim key (key.sibling _)
    exact ⟨_, _, rfl, hn _ _ hanswer, hslots⟩

end State.Alike

/-! ### Evaluations -/

inductive Task.Alike (L : Likeness settings limit) : Task → Task → Prop
  | box (key : BoxKey) : Alike L (.box key) (.box key)
  | node (site : Site) : Alike L (.node site) (.node site)
  | recipe {r r'} (key : BoxKey) (h : r.Alike L L.values r') :
      Alike L (.recipe key r) (.recipe key r')

/-- The recipes of all nodes keep the likeness. -/
def Likeness.Kept (L : Likeness settings limit) : Prop :=
  ∀ (site : Site) (stage : Stage), (site.recipe settings.domain stage).Alike L L.values
    (site.recipe settings.domain stage)

/-- Tasks that are alike give values that are alike, in states that are alike. -/
theorem Runs.alike {t t' : Task} {s s' u : State} {v : Value Local} (hL : L.Kept)
    (h : Runs settings t s v s') (ht : t.Alike L t') (hs : s.Alike L u) :
    ∃ w u', Runs (settings.withLimit limit) t' u w u' ∧ L.values v w ∧ s'.Alike L u' := by
  -- each rule of the first run is also the next rule of the second one: what it looks up is the
  -- same, and of remembered values it only matters whether there are any
  induction h generalizing t' u with
  | @leaf _ s _ _ h =>
    cases h with
    | @remembered key _ _ hm =>
      cases ht
      obtain ⟨w, hw, hvw⟩ := optionRel_some (hs.remembered? key) hm
      exact ⟨w, u, .leaf (.remembered hw), hvw, hs⟩
    | @absent key _ hm hsite =>
      cases ht
      have hm' := optionRel_none (hs.remembered? key) hm
      exact ⟨_, u, .leaf (.absent hm' ((hs.site?_eq key).trans hsite)), L.zero .float1, hs⟩
    | @reentered key _ _ hm hsite ha =>
      cases ht
      have hm' := optionRel_none (hs.remembered? key) hm
      rw [← hs.active] at ha
      rw [← hs.boxType_eq]
      exact ⟨_, _, .leaf (.reentered hm' ((hs.site?_eq key).trans hsite) ha), L.zero _,
        hs.report _ _⟩
    | @notLoaded site _ e hk hl =>
      cases ht
      rw [← hs.loads] at hl
      have hnoted := (hs.ask site.node.callee).of_notes (.record _ (.notLoaded e))
        (.record _ (.notLoaded e))
      exact ⟨_, _, .leaf (.notLoaded hk hl), L.zero .float1, hnoted.report _ _⟩
    | recursive hk hl hc =>
      cases ht
      rw [← hs.loads] at hl
      rw [← hs.isCalling_eq] at hc
      exact ⟨_, _, .leaf (.recursive hk hl hc), L.zero .float1, (hs.ask _).report _ _⟩
    | unlisted hk hl hc hi ho =>
      cases ht
      rw [← hs.loads] at hl
      rw [← hs.isCalling_eq] at hc
      obtain ⟨u₁, hi', hs₁⟩ := (hs.ask _).instantiate hi
      rw [← hs₁.outputNode?_eq] at ho
      exact ⟨_, _, .leaf (.unlisted hk hl hc hi' ho), L.zero .float1, hs₁.report _ _⟩
    | unfed hk hl hc hi ho hp =>
      cases ht
      rw [← hs.loads] at hl
      rw [← hs.isCalling_eq] at hc
      obtain ⟨u₁, hi', hs₁⟩ := (hs.ask _).instantiate hi
      rw [← hs₁.outputNode?_eq] at ho
      rw [← hs₁.producer?_eq] at hp
      exact ⟨_, u₁, .leaf (.unfed hk hl hc hi' ho hp), L.zero .float1, hs₁⟩
    | outside hk hf =>
      cases ht
      rw [← hs.context] at hf
      exact ⟨_, _, .leaf (.outside hk hf), L.zero .float1, hs.report _ _⟩
    | undeclared hk hf hg ha =>
      cases ht
      rw [← hs.context] at hf
      exact ⟨_, _, .leaf (.undeclared hk hf hg ha), L.zero .float1, hs.report _ _⟩
    | done =>
      cases ht with
      | recipe _ hr =>
        cases hr with
        | done hvw => exact ⟨_, u, .leaf .done, hvw, hs⟩
        | note hn => cases hn
  | @unary _ s _ _ _ h _ ih =>
    cases h with
    | @dispatched key _ site _ _ hm hsite ha =>
      cases ht
      have hm' := optionRel_none (hs.remembered? key) hm
      rw [← hs.active] at ha
      obtain ⟨w, u', hrun', hvw, hs'⟩ := ih (.node site) (hs.start site)
      exact ⟨w, _, .unary (.dispatched hm' ((hs.site?_eq key).trans hsite) ha) hrun', hvw,
        hs'.finish hvw key⟩
    | @plain site _ _ _ hc hi =>
      cases ht
      obtain ⟨w, u', hrun', hvw, hs'⟩ := ih (.recipe site.key (hL site s.stage)) hs
      rw [← hs.stage] at hrun'
      exact ⟨w, u', .unary (.plain hc hi) hrun', hvw, hs'⟩
    | @called _ _ _ _ _ _ producer _ _ hk hl hc hi ho hp =>
      cases ht
      rw [← hs.loads] at hl
      rw [← hs.isCalling_eq] at hc
      obtain ⟨u₁, hi', hs₁⟩ := (hs.ask _).instantiate hi
      rw [← hs₁.outputNode?_eq] at ho
      rw [← hs₁.producer?_eq] at hp
      obtain ⟨w, u₂, hrun', hvw, hs₂⟩ := ih (.box producer) (hs₁.withContext _)
      rw [← hs₁.context] at hrun'
      refine ⟨w, _, .unary (.called hk hl hc hi' ho hp) hrun', hvw, ?_⟩
      rw [hs₂.context]
      exact hs₂.withContext _
    | @passed _ _ _ _ producer _ _ hk hf hg ha hp =>
      cases ht
      rw [← hs.context] at hf
      rw [← hs.producer?_eq] at hp
      obtain ⟨w, u₁, hrun', hvw, hs₁⟩ := ih (.box producer) (hs.withContext _)
      rw [← hs.context] at hrun'
      refine ⟨w, _, .unary (.passed hk hf hg ha hp) hrun', hvw, ?_⟩
      rw [hs₁.context]
      exact hs₁.withContext _
    | @defaulted site _ _ _ _ _ hk hf hg ha hp =>
      cases ht
      rw [← hs.context] at hf
      rw [← hs.producer?_eq] at hp
      obtain ⟨w, u₁, hrun', hvw, hs₁⟩ := ih (.recipe site.key (.operandOrParam site 1 1)) hs
      exact ⟨w, u₁, .unary (.defaulted hk hf hg ha hp) hrun', hvw, hs₁⟩
    | @unconnected key _ _ _ _ _ hp =>
      cases ht with
      | recipe _ hr =>
        cases hr with
        | operand hr =>
          rw [← hs.producer?_eq] at hp
          obtain ⟨w, u₁, hnext', hvw, hs₁⟩ := ih (.recipe key (hr _ _ .none)) hs
          exact ⟨w, u₁, .unary (.unconnected hp) hnext', hvw, hs₁⟩
        | note hn => cases hn
    | @effect key _ _ _ _ _ _ he =>
      cases ht with
      | recipe _ hr =>
        obtain ⟨r₁', u₁, he', hr₁, hs₁⟩ := hs.effect hr he
        obtain ⟨w, u₂, hnext', hvw, hs₂⟩ := ih (.recipe key hr₁) hs₁
        exact ⟨w, u₂, .unary (.effect he') hnext', hvw, hs₂⟩
  | binary h _ _ ih ihn =>
    cases h with
    | @connected key _ _ _ producer _ _ _ _ hp =>
      cases ht with
      | recipe _ hr =>
        cases hr with
        | operand hr =>
          rw [← hs.producer?_eq] at hp
          obtain ⟨b, u₁, hrun', hab, hs₁⟩ := ih (.box producer) hs
          obtain ⟨w, u₂, hnext', hvw, hs₂⟩ := ihn (.recipe key (hr _ _ (.some hab))) hs₁
          exact ⟨w, u₂, .binary (.connected hp) hrun' hnext', hvw, hs₂⟩
        | note hn => cases hn

/-! ### Stages -/

/-- States between requests that are alike. -/
structure State.AlikePair (L : Likeness settings limit) (g : Graph) (s u : State) : Prop where
  idle : s.Idle settings g
  idle' : u.Idle (settings.withLimit limit) g
  alike : s.Alike L u

theorem State.AlikePair.beginStage {g : Graph} {s u : State} (h : s.AlikePair L g u)
    (stage : Stage) : (s.beginStage stage).AlikePair L g (u.beginStage stage) where
  idle := h.idle.beginStage stage
  idle' := h.idle'.beginStage stage
  alike := { h.alike with active := rfl, stage := rfl, memory := .nil }

namespace Generator

variable {g : Graph} {s u : State} {e e' : Evaluator}

theorem parameter_alike (hL : L.Kept) (he : Engine.Follows settings g [] e)
    (he' : Engine.Follows (settings.withLimit limit) g [] e') (h : s.AlikePair L g u)
    (output : Nat) (p : Parameter) :
    L.values (parameter e output p s).1.value (parameter e' output p u).1.value ∧
      (parameter e output p s).2.AlikePair L g (parameter e' output p u).2 := by
  have hrun := parameter_runs he h.idle output p
  have hrun' := parameter_runs he' h.idle' output p
  obtain ⟨w, u', hu', hvw, halike⟩ := hrun.alike hL (.recipe _ (.feed _ _ (L.literal _))) h.alike
  obtain ⟨rfl, rfl⟩ := hrun'.unique hu'
  exact ⟨hvw, h.idle.runs (p.located h.idle output) hrun,
    h.idle'.runs (p.located h.idle' output) hrun', halike⟩

/-- The interpolant of a slot that both have. -/
theorem interpolant_alike (hL : L.Kept) (he : Engine.Follows settings g [] e)
    (he' : Engine.Follows (settings.withLimit limit) g [] e') (h : s.AlikePair L g u)
    {slot : Slot} (hslot : slot ∈ s.slots) (hslot' : slot ∈ u.slots) (i : Nat) :
    L.values (interpolant e slot i s).1.value (interpolant e' slot i u).1.value ∧
      (interpolant e slot i s).2.AlikePair L g (interpolant e' slot i u).2 ∧
      s.Grows (interpolant e slot i s).2 ∧ u.Grows (interpolant e' slot i u).2 := by
  obtain ⟨s', hrun, hend⟩ := interpolant_runs he h.idle hslot i
  obtain ⟨u', hrun', hend'⟩ := interpolant_runs he' h.idle' hslot' i
  obtain ⟨hidle, hgrows⟩ := interpolant_idle h.idle hslot hrun
  obtain ⟨hidle', hgrows'⟩ := interpolant_idle h.idle' hslot' hrun'
  obtain ⟨w, u₁, hu₁, hvw, halike⟩ := hrun.alike hL (.recipe _ (.feed _ _ (L.zero _)))
    (h.alike.withContext slot.context)
  obtain ⟨rfl, rfl⟩ := hrun'.unique hu₁
  rw [hend, hend']
  refine ⟨hvw, ⟨hidle, hidle', ?_⟩, hgrows, hgrows'⟩
  rw [h.alike.context]
  exact halike.withContext s.context

theorem parameters_alike (hL : L.Kept) (he : Engine.Follows settings g [] e)
    (he' : Engine.Follows (settings.withLimit limit) g [] e') (h : s.AlikePair L g u)
    (output : Nat) (stage : Stage) :
    (parameters e output stage s).2.AlikePair L g (parameters e' output stage u).2 := by
  have hsame : List.Forall₂ Eq (Parameter.inStage stage) (Parameter.inStage stage) :=
    List.forall₂_same.mpr fun _ _ => rfl
  refine (Eval.mapM_forall₂ (S := fun a b => L.values a.value b.value)
    (P := fun s u => s.AlikePair L g u) hsame ?_ h).2
  rintro p _ rfl s u h
  exact parameter_alike hL he he' h output p

end Generator

end

end ShaderGraph
