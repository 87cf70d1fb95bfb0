import ShaderGraph.Proofs.Building
import ShaderGraph.Proofs.Succession

/-! What an evaluation leaves alone. While a node is under way, only its own recipe changes what is
remembered of its boxes, none of its boxes is computed anew, and only custom code of its own writes
a block for it. -/

namespace ShaderGraph

/-- The node of a box, among those of all graphs. -/
def BoxKey.place (key : BoxKey) : Nat × Nat := (key.graph, key.node)

theorem BoxKey.ne_of_place_ne {key key' : BoxKey} (h : key.place ≠ key'.place) : key ≠ key' :=
  fun he => h (congrArg place he)

theorem BoxKey.eq_of_place {key key' : BoxKey} (hp : key.place = key'.place)
    (hb : key.box = key'.box) : key = key' := by
  obtain ⟨graph, node, box⟩ := key
  obtain ⟨rfl, rfl⟩ := Prod.mk.inj hp
  exact congrArg (BoxKey.mk _ _) hb

/-! ### Setting what is remembered -/

namespace State

variable {s s' s'' : State} {key key' : BoxKey} {v : Value Local}

theorem lookup_filter_ne (memory : List (BoxKey × Value Local)) (key key' : BoxKey) :
    (memory.filter (·.1 != key)).lookup key' = if key' = key then none else memory.lookup key' := by
  induction memory with
  | nil => simp
  | cons entry memory ih =>
    obtain ⟨k, v⟩ := entry
    rw [List.filter_cons]
    by_cases hk : key' = k
    · subst hk
      by_cases hkey : key' = key
      · rw [if_neg (by simpa using hkey), ih, if_pos hkey, if_pos hkey]
      · simp [hkey]
    · have hne : (key' == k) = false := beq_eq_false_iff_ne.mpr hk
      rw [List.lookup_cons, hne, ← ih]
      split
      · rw [List.lookup_cons, hne]
      · rfl

theorem remembered?_remember_of_ne (s : State) (h : key' ≠ key) (value : Option (Value Local)) :
    (s.remember key value).remembered? key' = s.remembered? key' := by
  have hne : (key' == key) = false := by simpa using h
  unfold remember remembered?
  split
  · cases value with
    | none => simp [lookup_filter_ne, h]
    | some v => simp [lookup_filter_ne, h, List.lookup_cons, hne]
  · rfl

theorem remembered?_remember_self (hb : (s.box? key).isSome) (value : Option (Value Local)) :
    (s.remember key value).remembered? key = value := by
  unfold remember remembered?
  rw [if_pos hb]
  cases value with
  | none => simp [lookup_filter_ne]
  | some v => simp

theorem remembered?_finish_of_ne (s : State) (h : key' ≠ key) (v : Value Local) :
    (s.finish key v).remembered? key' = s.remembered? key' := by
  unfold finish
  dsimp only
  split
  · exact remembered?_remember_of_ne _ h _
  · rfl

/-- The value of a box is remembered, unless the recipe has set another one. -/
theorem remembered?_finish_self (hb : (s.box? key).isSome) (v : Value Local) :
    (s.finish key v).remembered? key = some ((s.remembered? key).getD v) := by
  have hkey : ({ s with active := s.active.erase (key.graph, key.node) } : State).remembered? key =
      s.remembered? key := rfl
  unfold finish
  dsimp only
  rw [hkey]
  cases hm : s.remembered? key with
  | none =>
    rw [if_pos Option.isNone_none]
    refine remembered?_remember_self ?_ (some v)
    exact hb
  | some w => exact hm

/-- What the recipe has set stays. -/
theorem remembered?_finish_of_some {w : Value Local} (h : s.remembered? key' = some w)
    (key : BoxKey) (v : Value Local) : (s.finish key v).remembered? key' = some w := by
  by_cases hk : key' = key
  · subst hk
    have hsome : ({ s with active := s.active.erase (key'.graph, key'.node) } : State).remembered?
        key' = some w := h
    unfold finish
    dsimp only
    rw [hsome]
    exact hsome
  · rw [remembered?_finish_of_ne s hk, h]

/-! ### One node -/

/-- The boxes of a node that were computed in this stage, the latest first. -/
def computedAt (s : State) (p : Nat × Nat) : List BoxKey := s.computed.filter (·.place = p)

theorem mem_computedAt {p : Nat × Nat} :
    key ∈ s.computedAt p ↔ key ∈ s.computed ∧ key.place = p := by
  simp [computedAt]

/-- Nothing changes for a node. -/
structure SameAt (p : Nat × Nat) (s s' : State) : Prop where
  memory : ∀ key, key.place = p → s'.remembered? key = s.remembered? key
  computed : s'.computedAt p = s.computedAt p

variable {p : Nat × Nat}

theorem SameAt.refl (p : Nat × Nat) (s : State) : SameAt p s s := ⟨fun _ _ => rfl, rfl⟩

theorem SameAt.trans (h : SameAt p s s') (h' : SameAt p s' s'') : SameAt p s s'' :=
  ⟨fun key hk => (h'.memory key hk).trans (h.memory key hk), h'.computed.trans h.computed⟩

theorem SameAt.of_eq (hm : s'.memory = s.memory) (hc : s'.computed = s.computed) :
    SameAt p s s' := by
  refine ⟨fun key _ => ?_, ?_⟩
  · rw [remembered?, remembered?, hm]
  · rw [computedAt, computedAt, hc]

theorem computed_start (s : State) (site : Site) :
    (s.start site).computed = site.key :: s.computed := rfl

theorem sameAt_start {site : Site} (h : site.key.place ≠ p) : SameAt p s (s.start site) := by
  refine ⟨fun _ _ => rfl, ?_⟩
  rw [computedAt, computed_start, List.filter_cons_of_neg (by simpa using h)]
  rfl

theorem sameAt_remember (h : key.place ≠ p) (value : Option (Value Local)) :
    SameAt p s (s.remember key value) := by
  refine ⟨fun key' hk => ?_, ?_⟩
  · exact remembered?_remember_of_ne s (BoxKey.ne_of_place_ne fun he => h (he ▸ hk)) value
  · rw [computedAt, computedAt, (sameLog_remember s key value).computed]

theorem sameAt_finish (h : key.place ≠ p) (v : Value Local) : SameAt p s (s.finish key v) := by
  refine ⟨fun key' hk => ?_, ?_⟩
  · exact remembered?_finish_of_ne s (BoxKey.ne_of_place_ne fun he => h (he ▸ hk)) v
  · rw [computedAt, computedAt, (sameLog_finish s key v).computed]

theorem sameAt_effect {settings : Settings} {r r' : Recipe Local (Value Local)}
    (he : r.effect? settings key s = some (r', s')) (h : key.place ≠ p ∨ r.Simple) :
    SameAt p s s' ∧ (key.place ≠ p ∨ r'.Simple) := by
  have hlog := sameLog_effect he
  rcases h with h | h
  · refine ⟨?_, .inl h⟩
    cases r with
    | remember box value next =>
      cases he
      exact @sameAt_remember s (key.sibling box) p h value
    | done => cases he
    | operand => cases he
    | comment =>
      cases he
      refine .of_eq ?_ hlog.computed
      split <;> rfl
    | report =>
      cases he
      exact .of_eq (SameCode.report s key _).memory hlog.computed
    | sample =>
      cases he
      exact .of_eq (SameCode.sample s _).memory hlog.computed
    | claim =>
      cases he
      exact .of_eq (SameCode.claim s settings key _).memory hlog.computed
    | _ =>
      cases he
      exact .of_eq rfl hlog.computed
  · obtain ⟨hr', hm⟩ := h.effect he
    exact ⟨.of_eq hm hlog.computed, .inr hr'⟩

end State

/-! ### Tasks that spare a node -/

/-- The task itself leaves alone what is remembered of a node: it is for another one, or its recipe
sets nothing. -/
def Task.Spares (p : Nat × Nat) : Task → Prop
  | node site => site.key.place ≠ p ∨
      ∀ domain stage, (site.recipe domain stage : Recipe Local (Value Local)).Simple
  | recipe key r => key.place ≠ p ∨ r.Simple
  | box _ => True

theorem Task.IsTop.spares {t : Task} (h : t.IsTop) (p : Nat × Nat) : t.Spares p := by
  cases h with
  | box => trivial
  | recipe h => exact .inr h.simple

/-- The body of the block that a recipe writes next. -/
def Recipe.block? {ρ α : Type} : Recipe ρ α → Option (Code ρ)
  | block body _ => some body
  | _ => none

theorem Recipe.Simple.block?_eq_none {ρ α : Type} {r : Recipe ρ α} (h : r.Simple) :
    r.block? = none := by
  cases h with
  | here h =>
    obtain ⟨a, rfl⟩ := h
    rfl
  | _ => rfl

/-- The block that a task writes next, with the box for which it does. -/
def Task.block? (t : Task) : Option (BoxKey × Code Local) :=
  t.recipe?.bind fun p => p.2.block?.map fun body => (p.1, body)

/-- The evaluations that write the blocks of a node. -/
def blocksAt (p : Nat × Nat) (l : List Evaluation) : List Evaluation :=
  l.filter fun y => y.task.block?.any (·.1.place = p)

section

variable {settings : Settings} {p : Nat × Nat} {x y z : Evaluation} {l l' : List Evaluation}

theorem blocksAt_append (p : Nat × Nat) (l l' : List Evaluation) :
    blocksAt p (l ++ l') = blocksAt p l ++ blocksAt p l' := List.filter_append _ _

theorem blocksAt_cons_of_spares (h : x.task.Spares p) (l : List Evaluation) :
    blocksAt p (x :: l) = blocksAt p l := by
  refine List.filter_cons_of_neg ?_
  obtain ⟨task, before, value, after⟩ := x
  cases task with
  | box => simp [Task.block?, Task.recipe?]
  | node => simp [Task.block?, Task.recipe?]
  | recipe key r =>
    rcases h with h | h
    · cases hb : r.block? <;> simp [Task.block?, Task.recipe?, hb, h]
    · simp [Task.block?, Task.recipe?, h.block?_eq_none]

namespace Evaluation

/-- Without other evaluations nothing changes for any node. -/
theorem Needs.sameAt (h : x.Needs settings []) (p : Nat × Nat) : State.SameAt p x.before x.after :=
  .of_eq h.sameCode.memory h.log.computed

/-- Before and after the evaluation that is needed, nothing changes for a node, unless that is the
evaluation of the node itself. -/
theorem Needs.sameAt_unary (h : x.Needs settings [y]) (hs : x.task.Spares p)
    (hd : ∀ site, y.task = .node site → site.key.place ≠ p) :
    State.SameAt p x.before y.before ∧ State.SameAt p y.after x.after ∧ y.task.Spares p := by
  cases h with
  | @dispatched key s site v s' hm hsite ha =>
    have hp := hd site rfl
    obtain rfl := State.key_of_site? hsite
    exact ⟨State.sameAt_start hp, State.sameAt_finish hp v, .inl hp⟩
  | plain hc hi =>
    refine ⟨.refl p _, .refl p _, ?_⟩
    rcases hs with hs | hs
    · exact .inl hs
    · exact .inr (hs _ _)
  | called hk hl hc hi =>
    exact ⟨.of_eq (State.SameCode.instantiate hi).memory (State.log_made hi).computed,
      .of_eq rfl rfl, trivial⟩
  | passed => exact ⟨.of_eq rfl rfl, .of_eq rfl rfl, trivial⟩
  | defaulted =>
    exact ⟨.refl p _, .refl p _, .inr (Recipe.silent_operandOrParam _ _ _).simple⟩
  | unconnected =>
    refine ⟨.refl p _, .refl p _, ?_⟩
    rcases hs with hs | hs
    · exact .inl hs
    · exact .inr (hs.answer none)
  | effect he =>
    obtain ⟨hsame, hspares⟩ := State.sameAt_effect he hs
    exact ⟨hsame, .refl p _, hspares⟩

/-- An operand is evaluated where the recipe stands, and the recipe goes on where that ends. -/
theorem Needs.binary (h : x.Needs settings [y, z]) (hs : x.task.Spares p) :
    y.before = x.before ∧ z.before = y.after ∧ x.after = z.after ∧ y.task.Spares p ∧
      z.task.Spares p := by
  cases h with
  | connected =>
    refine ⟨rfl, rfl, rfl, trivial, ?_⟩
    rcases hs with hs | hs
    · exact .inl hs
    · exact .inr (hs.answer _)

/-- A node that is under way is not dispatched. -/
theorem Needs.place_ne (h : x.Needs settings [y]) (ha : p ∈ x.before.active) (site : Site)
    (hy : y.task = .node site) : site.key.place ≠ p := by
  cases h with
  | @dispatched key s site' _ _ _ hsite hact =>
    cases hy
    rintro rfl
    obtain rfl := State.key_of_site? hsite
    exact hact ha
  | _ => cases hy

end Evaluation

/-- While a node is under way, nothing changes for it but by its own recipe, and nothing else writes
a block for it. -/
theorem Course.frame (h : Course settings x l) (ha : p ∈ x.before.active) (hs : x.task.Spares p) :
    State.SameAt p x.before x.after ∧ blocksAt p l = [] := by
  induction h with
  | leaf h => exact ⟨h.sameAt p, blocksAt_cons_of_spares hs []⟩
  | unary h _ ih =>
    obtain ⟨hopen, hclose, hspares⟩ := h.sameAt_unary hs (h.place_ne ha)
    obtain ⟨hsame, hblocks⟩ := ih (h.during.active.subset ha) hspares
    exact ⟨(hopen.trans hsame).trans hclose, (blocksAt_cons_of_spares hs _).trans hblocks⟩
  | binary h hy hz ihy ihz =>
    have hduring := h.during_two hy.runs hz.runs
    obtain ⟨hb, hm, he, hsy, hsz⟩ := h.binary hs
    obtain ⟨hsame, hblocks⟩ := ihy (hduring.1.active.subset ha) hsy
    obtain ⟨hsame', hblocks'⟩ := ihz (hduring.2.active.subset ha) hsz
    rw [hb] at hsame
    rw [hm, ← he] at hsame'
    refine ⟨hsame.trans hsame', (blocksAt_cons_of_spares hs _).trans ?_⟩
    rw [blocksAt_append, hblocks, hblocks', List.append_nil]

end

end ShaderGraph
