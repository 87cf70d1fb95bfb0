import ShaderGraph.Proofs.Scope

/-! The course of an evaluation: the evaluation itself and all those it is made of, each followed by
the ones that it needs, in the order in which they start. What goes on during an evaluation is said
of the members of its course. What it writes, the boxes that it computes and the functions that it
asks for are those of the members, in their order. -/

namespace ShaderGraph

/-- `Course settings x l`: the evaluations `l` are those that `x` is made of, itself first. -/
inductive Course (settings : Settings) : Evaluation → List Evaluation → Prop
  | leaf {x} (h : x.Needs settings []) : Course settings x [x]
  | unary {x y l} (h : x.Needs settings [y]) (hy : Course settings y l) : Course settings x (x :: l)
  | binary {x y z l l'} (h : x.Needs settings [y, z]) (hy : Course settings y l)
      (hz : Course settings z l') : Course settings x (x :: (l ++ l'))

/-! ### Courses and derivations -/

section

variable {settings : Settings} {g : Graph} {x y : Evaluation} {l : List Evaluation}

/-- Every evaluation has a course. -/
theorem Runs.course {t : Task} {s s' : State} {v : Value Local} (h : Runs settings t s v s') :
    ∃ l, Course settings ⟨t, s, v, s'⟩ l := by
  induction h with
  | leaf h => exact ⟨_, .leaf h⟩
  | unary h _ ih =>
    obtain ⟨l, hy⟩ := ih
    exact ⟨_, .unary h hy⟩
  | binary h _ _ ih ihn =>
    obtain ⟨l, hy⟩ := ih
    obtain ⟨l', hz⟩ := ihn
    exact ⟨_, .binary h hy hz⟩

/-- Only evaluations have courses. -/
theorem Course.runs (h : Course settings x l) :
    Runs settings x.task x.before x.value x.after := by
  induction h with
  | leaf h => exact .leaf h
  | unary h _ ih => exact .unary h ih
  | binary h _ _ ih ihn => exact .binary h ih ihn

/-- A course starts with the evaluation itself. -/
theorem Course.eq_cons (h : Course settings x l) : l = x :: l.tail := by
  cases h <;> rfl

theorem Course.self_mem (h : Course settings x l) : x ∈ l := by
  rw [h.eq_cons]
  exact List.mem_cons_self

/-- What is passed on from an evaluation to those it needs holds of all members of its course. -/
theorem Course.forall_mem {Q : Evaluation → Prop} (h : Course settings x l)
    (hone : ∀ x y, x.Needs settings [y] → Q x → Q y)
    (htwo : ∀ x y z, x.Needs settings [y, z] → Q x →
      Runs settings y.task y.before y.value y.after →
      Runs settings z.task z.before z.value z.after → Q y ∧ Q z)
    (hx : Q x) : ∀ y ∈ l, Q y := by
  induction h with
  | leaf => simpa using hx
  | unary h _ ih => simpa using ⟨hx, ih (hone _ _ h hx)⟩
  | binary h hy hz ihy ihz =>
    obtain ⟨hQy, hQz⟩ := htwo _ _ _ h hx hy.runs hz.runs
    intro w hw
    rcases List.mem_cons.mp hw with rfl | hw
    · exact hx
    · rcases List.mem_append.mp hw with hw | hw
      · exact ihy hQy w hw
      · exact ihz hQz w hw

/-- What is passed on to an evaluation from those it needs goes up from any member of its course,
as far as nothing else comes of it on the way. -/
theorem Course.ascend {P : Evaluation → Prop} {E : Prop} (h : Course settings x l)
    (hone : ∀ z ∈ l, ∀ y ∈ l, z.Needs settings [y] → P y → P z ∨ E)
    (htwo : ∀ z y w, z.Needs settings [y, w] → Runs settings y.task y.before y.value y.after →
      P y ∨ P w → P z ∨ E)
    (hy : y ∈ l) (hP : P y) : P x ∨ E := by
  induction h with
  | leaf =>
    obtain rfl := List.mem_singleton.mp hy
    exact .inl hP
  | @unary x z l h hz ih =>
    rcases List.mem_cons.mp hy with rfl | hmem
    · exact .inl hP
    · have hup := ih (fun v hv w hw =>
        hone v (List.mem_cons_of_mem x hv) w (List.mem_cons_of_mem x hw)) hmem
      rcases hup with hPz | he
      · exact hone x List.mem_cons_self z (List.mem_cons_of_mem x hz.self_mem) h hPz
      · exact .inr he
  | @binary x z z' l l' h hz hz' ihz ihz' =>
    have hleft : ∀ v ∈ l, v ∈ x :: (l ++ l') := fun v hv =>
      List.mem_cons_of_mem x (List.mem_append_left l' hv)
    have hright : ∀ v ∈ l', v ∈ x :: (l ++ l') := fun v hv =>
      List.mem_cons_of_mem x (List.mem_append_right l hv)
    rcases List.mem_cons.mp hy with rfl | hmem
    · exact .inl hP
    · rcases List.mem_append.mp hmem with hmem | hmem
      · rcases ihz (fun v hv w hw => hone v (hleft v hv) w (hleft w hw)) hmem with hPz | he
        · exact htwo x z z' h hz.runs (.inl hPz)
        · exact .inr he
      · rcases ihz' (fun v hv w hw => hone v (hright v hv) w (hright w hw)) hmem with hPz | he
        · exact htwo x z z' h hz.runs (.inr hPz)
        · exact .inr he

/-- Every member of a course has its own course within it. -/
theorem Course.mem (h : Course settings x l) (hy : y ∈ l) :
    ∃ l', Course settings y l' ∧ l' ⊆ l := by
  induction h with
  | leaf h =>
    obtain rfl := List.mem_singleton.mp hy
    exact ⟨_, .leaf h, List.Subset.refl _⟩
  | unary h hc ih =>
    rcases List.mem_cons.mp hy with rfl | hy
    · exact ⟨_, .unary h hc, List.Subset.refl _⟩
    · obtain ⟨l', hl', hsub⟩ := ih hy
      exact ⟨l', hl', List.subset_cons_of_subset _ hsub⟩
  | binary h hc hc' ih ih' =>
    rcases List.mem_cons.mp hy with rfl | hy
    · exact ⟨_, .binary h hc hc', List.Subset.refl _⟩
    · rcases List.mem_append.mp hy with hy | hy
      · obtain ⟨l', hl', hsub⟩ := ih hy
        exact ⟨l', hl', List.subset_cons_of_subset _ (List.subset_append_of_subset_left _ hsub)⟩
      · obtain ⟨l', hl', hsub⟩ := ih' hy
        exact ⟨l', hl', List.subset_cons_of_subset _ (List.subset_append_of_subset_right _ hsub)⟩

end

/-! ### Members of a course -/

namespace State

/-- What there is in one state is still there in another. -/
structure Extends (s s' : State) : Prop where
  instances : s.instances <+: s'.instances
  statements : s.writer.statements <+: s'.writer.statements
  diagnostics : s.diagnostics <+: s'.diagnostics

/-- States that differ in other respects only. -/
theorem Extends.of_eq {s s' : State} (hi : s.instances = s'.instances)
    (hw : s.writer = s'.writer) (hd : s.diagnostics = s'.diagnostics) : s.Extends s' :=
  ⟨hi ▸ List.prefix_refl _, hw ▸ List.prefix_refl _, hd ▸ List.prefix_refl _⟩

theorem Extends.trans {s s' s'' : State} (h : s.Extends s') (h' : s'.Extends s'') : s.Extends s'' :=
  ⟨h.instances.trans h'.instances, h.statements.trans h'.statements,
    h.diagnostics.trans h'.diagnostics⟩

theorem Grows.extends {s s' : State} (h : s.Grows s') : s.Extends s' :=
  ⟨h.instances, h.statements, h.diagnostics⟩

theorem extends_finish (s : State) (key : BoxKey) (v : Value Local) :
    s.Extends (s.finish key v) := by
  obtain ⟨memory, hf⟩ := s.finish_eq key v
  rw [hf]
  exact .of_eq rfl rfl rfl

end State

namespace Evaluation

/-- The evaluation takes place during another one. -/
structure During (y x : Evaluation) : Prop where
  starts : x.before.Extends y.before
  ends : y.after.Extends x.after
  /-- What is under way stays so. -/
  active : x.before.active <:+ y.before.active

variable {settings : Settings} {g : Graph} {x y z : Evaluation} {l : List Evaluation}

/-- Evaluations of different tasks, from the same state to the same state. -/
theorem During.of_eq (hb : x.before = y.before) (ha : y.after = x.after) : y.During x := by
  refine ⟨?_, ?_, hb ▸ List.suffix_refl _⟩
  · rw [hb]
    exact .of_eq rfl rfl rfl
  · rw [ha]
    exact .of_eq rfl rfl rfl

theorem During.trans (h : z.During y) (h' : y.During x) : z.During x :=
  ⟨h'.starts.trans h.starts, h.ends.trans h'.ends, h'.active.trans h.active⟩

theorem Needs.during (h : x.Needs settings [y]) : y.During x := by
  cases h with
  | dispatched => exact ⟨.of_eq rfl rfl rfl, State.extends_finish _ _ _, List.suffix_cons _ _⟩
  | plain => exact .of_eq rfl rfl
  | @called _ s _ _ _ _ _ _ _ _ _ _ hi =>
    have hg := s.grows_made hi
    refine ⟨⟨hg.instances, hg.statements, hg.diagnostics⟩, .of_eq rfl rfl rfl, ?_⟩
    exact hg.active ▸ List.suffix_refl _
  | passed => exact ⟨.of_eq rfl rfl rfl, .of_eq rfl rfl rfl, List.suffix_refl _⟩
  | defaulted => exact .of_eq rfl rfl
  | unconnected => exact .of_eq rfl rfl
  | effect he =>
    have hg := State.grows_effect _ he
    exact ⟨hg.extends, .of_eq rfl rfl rfl, hg.active ▸ List.suffix_refl _⟩

theorem Needs.during_two (h : x.Needs settings [y, z])
    (hy : Runs settings y.task y.before y.value y.after)
    (hz : Runs settings z.task z.before z.value z.after) : y.During x ∧ z.During x := by
  cases h with
  | connected =>
    refine ⟨⟨.of_eq rfl rfl rfl, hz.grows.extends, List.suffix_refl _⟩, hy.grows.extends,
      .of_eq rfl rfl rfl, ?_⟩
    exact hy.grows.active ▸ List.suffix_refl _

end Evaluation

namespace Course

variable {settings : Settings} {g : Graph} {x : Evaluation} {l : List Evaluation}

theorem during (h : Course settings x l) : ∀ y ∈ l, y.During x :=
  h.forall_mem (fun _ _ hn hx => hn.during.trans hx)
    (fun _ _ _ hn hx hy hz =>
      ⟨(hn.during_two hy hz).1.trans hx, (hn.during_two hy hz).2.trans hx⟩) (.of_eq rfl rfl)

/-- All evaluations start in sound states, in the current graph. -/
theorem sound (h : Course settings x l) (hs : x.before.Sound settings g)
    (hl : x.task.Located x.before) :
    ∀ y ∈ l, y.before.Sound settings g ∧ y.task.Located y.before := by
  refine h.forall_mem (Q := fun y => y.before.Sound settings g ∧ y.task.Located y.before)
    (fun _ _ hn hx => hn.sound hx.1 hx.2) ?_ ⟨hs, hl⟩
  rintro x y z hn ⟨hs, hl⟩ hy -
  obtain ⟨hs₁, hl₁⟩ := hn.sound_first hs hl
  exact ⟨⟨hs₁, hl₁⟩, hn.sound_second hl hy (hy.sound hs₁ hl₁)⟩

end Course

/-! ### What is written, computed and asked for -/

/-- The boxes for which nodes were dispatched since a stage began, given what happened, the latest
first. -/
def Event.computed : List Event → List BoxKey
  | [] => []
  | stageBegun _ :: _ => []
  | dispatched key _ _ _ _ :: events => key :: computed events
  | _ :: events => computed events

/-- The box for which a node is dispatched. -/
def Event.key? : Event → Option BoxKey
  | dispatched key _ _ _ _ => some key
  | _ => none

theorem Event.computed_append {events : List Event}
    (h : ∀ e ∈ events, ∀ stage, e ≠ stageBegun stage) (earlier : List Event) :
    computed (events ++ earlier) = events.filterMap key? ++ computed earlier := by
  induction events with
  | nil => rfl
  | cons e events ih =>
    have ih := ih fun e he => h e (List.mem_cons_of_mem _ he)
    cases e with
    | stageBegun stage => exact absurd rfl (h _ List.mem_cons_self stage)
    | dispatched => exact congrArg (List.cons _) ih
    | _ => exact ih

namespace State

/-- The boxes computed in this stage, the latest first. -/
def computed (s : State) : List BoxKey := Event.computed s.trace

/-- Between two states of a stage the given boxes are computed, in this order. -/
def Computes (s : State) (keys : List BoxKey) (s' : State) : Prop :=
  ∃ events, s'.trace = events ++ s.trace ∧ events.filterMap Event.key? = keys.reverse ∧
    ∀ e ∈ events, ∀ stage, e ≠ .stageBegun stage

variable {s s' s'' : State} {keys keys' : List BoxKey}

theorem Computes.of_eq (h : s'.trace = s.trace) : s.Computes [] s' := ⟨[], h, rfl, by simp⟩

theorem Computes.trans (h : s.Computes keys s') (h' : s'.Computes keys' s'') :
    s.Computes (keys ++ keys') s'' := by
  obtain ⟨events, ht, hk, hs⟩ := h
  obtain ⟨events', ht', hk', hs'⟩ := h'
  refine ⟨events' ++ events, ?_, ?_, fun e he => ?_⟩
  · rw [ht', ht, List.append_assoc]
  · rw [List.filterMap_append, hk', hk, List.reverse_append]
  · rcases List.mem_append.mp he with he | he
    · exact hs' e he
    · exact hs e he

theorem Computes.computed (h : s.Computes keys s') : s'.computed = keys.reverse ++ s.computed := by
  obtain ⟨events, ht, hk, hs⟩ := h
  rw [State.computed, ht, Event.computed_append hs, hk]
  rfl

theorem computes_record {e : Event} (hk : e.key? = none) (hs : ∀ stage, e ≠ .stageBegun stage) :
    s.Computes [] (s.record e) := by
  refine ⟨[e], rfl, by simp [hk], fun e' he => ?_⟩
  obtain rfl := List.mem_singleton.mp he
  exact hs

theorem computes_start (s : State) (site : Site) : s.Computes [site.key] (s.start site) := by
  refine ⟨[_], rfl, rfl, fun e he stage => ?_⟩
  obtain rfl := List.mem_singleton.mp he
  exact Event.noConfusion

/-- No box is computed and no function asked for. -/
structure SameLog (s s' : State) : Prop where
  computes : s.Computes [] s'
  loads : s'.loads = s.loads

theorem SameLog.of_eq (ht : s'.trace = s.trace) (hl : s'.loads = s.loads) : s.SameLog s' :=
  ⟨.of_eq ht, hl⟩

theorem SameLog.trans (h : s.SameLog s') (h' : s'.SameLog s'') : s.SameLog s'' :=
  ⟨h.computes.trans h'.computes, h'.loads.trans h.loads⟩

theorem SameLog.computed (h : s.SameLog s') : s'.computed = s.computed := h.computes.computed

/-- No node is dispatched. -/
theorem SameLog.mem_trace (h : s.SameLog s') {e : Event} (he : e ∈ s'.trace)
    (hu : e.underway ≠ []) : e ∈ s.trace := by
  obtain ⟨events, ht, hk, -⟩ := h.computes
  rw [ht] at he
  rcases List.mem_append.mp he with he | he
  · have hnone := List.filterMap_eq_nil_iff.mp hk e he
    cases e with
    | dispatched => cases hnone
    | _ => exact absurd rfl hu
  · exact he

theorem sameLog_report (s : State) (key : BoxKey) (cause : Cause) :
    s.SameLog (s.report key cause) := by
  unfold report
  dsimp only
  split
  · exact .of_eq rfl rfl
  · exact ⟨computes_record rfl fun _ => Event.noConfusion, rfl⟩

theorem sameLog_remember (s : State) (key : BoxKey) (value : Option (Value Local)) :
    s.SameLog (s.remember key value) := by
  obtain ⟨memory, hr⟩ := s.remember_eq key value
  rw [hr]
  exact .of_eq rfl rfl

theorem sameLog_finish (s : State) (key : BoxKey) (v : Value Local) :
    s.SameLog (s.finish key v) := by
  obtain ⟨memory, hf⟩ := s.finish_eq key v
  rw [hf]
  exact .of_eq rfl rfl

theorem sameLog_effect {α : Type} {settings : Settings} {key : BoxKey} {r r' : Recipe Local α}
    (h : r.effect? settings key s = some (r', s')) : s.SameLog s' := by
  cases r with
  | done => cases h
  | operand => cases h
  | comment =>
    cases h
    split <;> exact .of_eq rfl rfl
  | report =>
    cases h
    exact sameLog_report s _ _
  | sample =>
    cases h
    unfold State.sample
    split <;> exact .of_eq rfl rfl
  | remember =>
    cases h
    exact sameLog_remember s _ _
  | claim =>
    cases h
    unfold State.claim
    split
    · exact .of_eq rfl rfl
    · split <;> exact .of_eq rfl rfl
  | _ =>
    cases h
    exact .of_eq rfl rfl

/-- A call that gets its graph has asked for its function. -/
theorem log_made {site : Site} {function : MaterialFunction} {graph : Nat}
    (h : (s.ask site.node.callee).instantiate site function = (graph, s')) :
    (s.ask site.node.callee).SameLog s' := by
  unfold instantiate at h
  split at h
  · cases h
    exact .of_eq rfl rfl
  · cases h
    exact ⟨computes_record rfl fun _ => Event.noConfusion, rfl⟩

end State

/-- The box that a task is to compute. -/
def Task.site? : Task → Option Site
  | node site => some site
  | recipe .. => none
  | box _ => none

/-- What is left of a recipe, for a task that is one. -/
def Task.recipe? : Task → Option (BoxKey × Recipe Local (Value Local))
  | recipe key r => some (key, r)
  | node _ => none
  | box _ => none

/-- The statement that the next request of a recipe writes, if it does. -/
def Evaluation.written (settings : Settings) (x : Evaluation) : List Statement :=
  (x.task.recipe?.bind fun p => p.2.effect? settings p.1 x.before).elim [] fun q =>
    q.2.writer.statements.drop x.before.writer.statements.length

/-- The boxes that are computed, in the order in which that starts. -/
def sitesOf (l : List Evaluation) : List Site := l.filterMap (·.task.site?)

/-- Those of calls. -/
def callsOf (l : List Evaluation) : List Site :=
  (sitesOf l).filter (·.node.kind = .materialFunction)

section Members

variable {settings : Settings} {x y z : Evaluation} {l l' : List Evaluation}

@[simp] theorem sitesOf_cons (x : Evaluation) (l : List Evaluation) :
    sitesOf (x :: l) = x.task.site?.toList ++ sitesOf l := by
  unfold sitesOf
  cases h : x.task.site? <;> simp [h]

@[simp] theorem sitesOf_append (l l' : List Evaluation) :
    sitesOf (l ++ l') = sitesOf l ++ sitesOf l' := List.filterMap_append

theorem callsOf_append (l l' : List Evaluation) : callsOf (l ++ l') = callsOf l ++ callsOf l' := by
  rw [callsOf, sitesOf_append, List.filter_append]
  rfl

theorem callsOf_cons_of_none (h : x.task.site? = none) : callsOf (x :: l) = callsOf l := by
  simp [callsOf, h]

theorem callsOf_cons_of_ne {site : Site} (h : x.task.site? = some site)
    (hk : site.node.kind ≠ .materialFunction) : callsOf (x :: l) = callsOf l := by
  simp [callsOf, h, hk]

theorem callsOf_cons {site : Site} (h : x.task.site? = some site)
    (hk : site.node.kind = .materialFunction) : callsOf (x :: l) = site :: callsOf l := by
  simp [callsOf, h, hk]

/-- The state once a call, if the evaluation is one, has asked for its function. -/
def Evaluation.asking (x : Evaluation) : State :=
  { x.before with loads := x.before.loads ++ (callsOf [x]).map (·.node.callee) }

theorem Evaluation.asking_sameLog (h : callsOf [x] = []) : x.asking.SameLog x.before :=
  .of_eq rfl (by simp [asking, h])

theorem Evaluation.asking_sameLog_ask {site : Site} (h : callsOf [x] = [site]) :
    x.asking.SameLog (x.before.ask site.node.callee) :=
  .of_eq rfl (by simp [asking, h, State.ask])

/-- Without other evaluations nothing is computed, and only a call asks for a function. -/
theorem Evaluation.Needs.log (h : x.Needs settings []) : x.asking.SameLog x.after := by
  cases h with
  | remembered | absent | done => exact asking_sameLog rfl
  | reentered => exact (asking_sameLog rfl).trans (State.sameLog_report _ _ _)
  | @notLoaded site s e hk =>
    refine (asking_sameLog_ask (callsOf_cons rfl hk)).trans (.trans ?_ (State.sameLog_report _ _ _))
    exact ⟨State.computes_record rfl fun _ => Event.noConfusion, rfl⟩
  | recursive hk =>
    exact (asking_sameLog_ask (callsOf_cons rfl hk)).trans (State.sameLog_report _ _ _)
  | unlisted hk _ _ hi =>
    exact ((asking_sameLog_ask (callsOf_cons rfl hk)).trans (State.log_made hi)).trans
      (State.sameLog_report _ _ _)
  | unfed hk _ _ hi => exact (asking_sameLog_ask (callsOf_cons rfl hk)).trans (State.log_made hi)
  | outside hk =>
    exact (asking_sameLog (callsOf_cons_of_ne rfl (by simp [hk]))).trans
      (State.sameLog_report _ _ _)
  | undeclared hk =>
    exact (asking_sameLog (callsOf_cons_of_ne rfl (by simp [hk]))).trans
      (State.sameLog_report _ _ _)

/-- Before the evaluation that is needed, its node gets under way, if it is one of a node; after it
nothing is computed or asked for. -/
theorem Evaluation.Needs.log_unary (h : x.Needs settings [y]) :
    (y.task.site?.elim x.asking x.asking.start).SameLog y.before ∧ y.after.SameLog x.after := by
  cases h with
  | dispatched => exact ⟨.of_eq rfl (List.append_nil _).symm, State.sameLog_finish _ _ _⟩
  | plain hc => exact ⟨asking_sameLog (callsOf_cons_of_ne rfl hc), .of_eq rfl rfl⟩
  | called hk _ _ hi =>
    refine ⟨((asking_sameLog_ask (callsOf_cons rfl hk)).trans (State.log_made hi)).trans ?_, ?_⟩
    · exact .of_eq rfl rfl
    · exact .of_eq rfl rfl
  | passed hk =>
    refine ⟨(asking_sameLog (callsOf_cons_of_ne rfl (by simp [hk]))).trans ?_, .of_eq rfl rfl⟩
    exact .of_eq rfl rfl
  | defaulted hk =>
    exact ⟨asking_sameLog (callsOf_cons_of_ne rfl (by simp [hk])), .of_eq rfl rfl⟩
  | unconnected => exact ⟨asking_sameLog rfl, .of_eq rfl rfl⟩
  | effect he => exact ⟨(asking_sameLog rfl).trans (State.sameLog_effect he), .of_eq rfl rfl⟩

end Members

namespace Course

variable {settings : Settings} {x : Evaluation} {l : List Evaluation}

/-- What an evaluation writes is what its members write. -/
theorem statements (h : Course settings x l) :
    x.after.writer.statements =
      x.before.writer.statements ++ l.flatMap (·.written settings) := by
  induction h with
  | leaf h =>
    have hnone : ∀ {x : Evaluation}, x.Needs settings [] → x.written settings = [] := by
      intro x h
      cases h <;> rfl
    rw [List.flatMap_singleton, hnone h, List.append_nil, h.sameCode.writer]
  | unary h _ ih =>
    cases h with
    | dispatched =>
      dsimp only
      rw [State.finish_writer]
      exact ih
    | called _ _ _ hi =>
      rw [← (State.SameCode.instantiate hi).writer]
      exact ih
    | effect he =>
      obtain ⟨own, hown⟩ := (State.grows_effect _ he).statements
      rw [ih, List.flatMap_cons, ← hown]
      simp [Evaluation.written, Task.recipe?, he, ← hown]
    | _ => exact ih
  | binary h _ _ ihy ihz =>
    cases h with
    | connected =>
      dsimp only at ihy ihz ⊢
      rw [ihz, ihy, List.flatMap_cons, List.flatMap_append, List.append_assoc]
      rfl

/-- The functions that an evaluation asks for are those of its calls, each asked for once. -/
theorem loads (h : Course settings x l) :
    x.after.loads = x.before.loads ++ (callsOf l).map (·.node.callee) := by
  induction h with
  | leaf h => exact h.log.loads
  | @unary x y l h _ ih =>
    obtain ⟨hopen, hclose⟩ := h.log_unary
    have hstart : (y.task.site?.elim x.asking x.asking.start).loads = x.asking.loads := by
      cases y.task.site? <;> rfl
    rw [hclose.loads, ih, hopen.loads, hstart, ← List.singleton_append, callsOf_append,
      List.map_append, ← List.append_assoc]
    rfl
  | binary h _ _ ihy ihz =>
    cases h with
    | connected =>
      dsimp only at ihy ihz ⊢
      rw [ihz, ihy, callsOf_cons_of_none rfl, callsOf_append, List.map_append, List.append_assoc]

/-- The boxes that are computed during an evaluation are those of its members. The evaluation itself
does not count: the node of a box is dispatched before its evaluation starts. -/
theorem computed (h : Course settings x l) :
    x.before.Computes ((sitesOf l.tail).map (·.key)) x.after := by
  induction h with
  | leaf h => exact (State.Computes.of_eq rfl).trans h.log.computes
  | @unary x y l h hy ih =>
    obtain ⟨hopen, hclose⟩ := h.log_unary
    have hasking : x.before.Computes [] x.asking := .of_eq rfl
    have hstart : x.asking.Computes (y.task.site?.toList.map (·.key))
        (y.task.site?.elim x.asking x.asking.start) := by
      cases y.task.site? with
      | none => exact .of_eq rfl
      | some site => exact State.computes_start _ site
    have hall := ((hasking.trans hstart).trans hopen.computes).trans (ih.trans hclose.computes)
    rw [List.tail_cons, hy.eq_cons, sitesOf_cons]
    simpa using hall
  | binary h hy hz ihy ihz =>
    rw [List.tail_cons, sitesOf_append, hy.eq_cons, hz.eq_cons, sitesOf_cons, sitesOf_cons]
    cases h with
    | connected => simpa [Task.site?] using ihy.trans ihz

/-- Whenever a node is dispatched during an evaluation, its evaluation is a member. -/
theorem dispatched (h : Course settings x l) {e : Event} (he : e ∈ x.after.trace)
    (hu : e.underway ≠ []) :
    e ∈ x.before.trace ∨ ∃ y ∈ l, ∃ site, y.task = .node site ∧
      e = .dispatched site.key site.node.kind site.node.id y.before.context
        y.before.active.tail := by
  induction h with
  | leaf h => exact .inl (h.log.mem_trace he hu)
  | @unary x y l h hy ih =>
    obtain ⟨hopen, hclose⟩ := h.log_unary
    rcases ih (hclose.mem_trace he hu) with hbefore | ⟨z, hz, hrest⟩
    · cases h with
      | @dispatched _ s site =>
        rcases List.mem_cons.mp (hopen.mem_trace hbefore hu) with rfl | hold
        · refine .inr ⟨_, List.mem_cons_of_mem _ hy.self_mem, site, rfl, rfl⟩
        · exact .inl hold
      | _ => exact .inl (hopen.mem_trace hbefore hu)
    · exact .inr ⟨z, List.mem_cons_of_mem _ hz, hrest⟩
  | binary h _ _ ihy ihz =>
    cases h with
    | connected =>
      rcases ihz he with hmid | ⟨z, hz, hrest⟩
      · rcases ihy hmid with hbefore | ⟨z, hz, hrest⟩
        · exact .inl hbefore
        · exact .inr ⟨z, List.mem_cons_of_mem _ (List.mem_append_left _ hz), hrest⟩
      · exact .inr ⟨z, List.mem_cons_of_mem _ (List.mem_append_right _ hz), hrest⟩

end Course

end ShaderGraph
