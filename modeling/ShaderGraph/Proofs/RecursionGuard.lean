import ShaderGraph.Proofs.CallChain
import ShaderGraph.Proofs.Succession

/-! Which calls are refused as recursive: exactly those of functions that are called on the way from
the material graph to the graph of the call. It makes no difference which functions happen to be
under evaluation, so a call may stand in the argument of another call of the same function. -/

namespace ShaderGraph

open CallTree

/-- The function is called on the way to a graph. -/
def CallTree.OnTheWay (table : List Instance) (id : AssetId) (i : Nat) : Prop :=
  ∃ c, Lineage table i c ∧ id ∈ called table c

/-- What a node reports itself: the diagnostics of its own steps, with all other boxes giving zero
at once and nothing reported before. -/
def Site.reports (settings : Settings) (site : Site) (s : State) : List Diagnostic :=
  (Engine.process settings (fun _ => return .zero .float1) site
    { s with diagnostics := [] }).2.diagnostics

namespace Evaluation

/-- The evaluation of a call whose function can be loaded. -/
structure IsCall (settings : Settings) (x : Evaluation) (site : Site) : Prop where
  task : x.task = .node site
  kind : site.node.kind = .materialFunction
  loaded : ∃ function,
    settings.resolver.load x.before.loads.length site.node.callee = .ok function

/-- The call is reported as recursive. -/
def Refuses (settings : Settings) (x : Evaluation) (site : Site) : Prop :=
  x.before.diagnose site.key (.recursiveCall site.node.callee) ∈ site.reports settings x.before

end Evaluation

/-! ### The guard -/

namespace State

variable {settings : Settings} {g : Graph} {s : State}

/-- The guard looks for the function on the way to the current graph. -/
theorem isCalling_iff {id : AssetId} {i : Nat} (hs : s.Sound settings g)
    (hcur : s.context.current? = some i) :
    s.isCalling id = true ↔ OnTheWay s.instances id i := by
  have hlin := hs.context.lineage_current hcur
  have hmem : s.isCalling id = true ↔ id ∈ called s.instances s.context.graphs := by
    rw [isCalling, List.any_eq_true, mem_called]
    refine exists_congr fun j => and_congr_right fun _ => ?_
    have horigin : (s.instance? j).bind (·.origin) = origin? s.instances j := rfl
    rw [horigin]
    cases origin? s.instances j <;> simp
  rw [hmem]
  constructor
  · exact fun h => ⟨_, hlin, h⟩
  · rintro ⟨c, hc, h⟩
    rwa [hlin.unique hs.tree.origin?_root hc]

end State

theorem CallTree.onTheWay_iff {settings : Settings} {g : Graph} {table table' : List Instance}
    {id : AssetId} {i : Nat} (ht : CallTree settings g table) (hp : table <+: table')
    (hi : i < table.length) : OnTheWay table' id i ↔ OnTheWay table id i := by
  have hcalled : ∀ {c}, Lineage table i c → called table' c = called table c := by
    intro c hc
    refine List.filterMap_congr fun j hj => ?_
    rw [origin?_of_lt hp (ht.lineage_lt hc j hj)]
  constructor
  · rintro ⟨c, hc, h⟩
    have hold := ht.lineage_of_lt hp hi hc
    exact ⟨c, hold, hcalled hold ▸ h⟩
  · rintro ⟨c, hc, h⟩
    exact ⟨c, hc.mono hp, (hcalled hc).symm ▸ h⟩

theorem Cause.recursiveCall_ne_dependsOnItself (function : AssetId) (node : NodeId) :
    recursiveCall function ≠ dependsOnItself node := by
  intro h
  have hhead := congrArg (·.toList.head?) (Cause.recursiveOrMalformedCall.inj h)
  simp [Literal.toString_self] at hhead

namespace Evaluation

variable {settings : Settings} {g : Graph} {x : Evaluation} {site : Site} {l : List Evaluation}

/-- A call is reported as recursive exactly if the guard finds its function. -/
theorem IsCall.refuses_iff (h : x.IsCall settings site) :
    x.Refuses settings site ↔ x.before.isCalling site.node.callee = true := by
  obtain ⟨function, hl⟩ := h.loaded
  have hload : settings.resolver.load ({ x.before with diagnostics := [] } : State).loads.length
      site.node.callee = .ok function := hl
  unfold Refuses Site.reports
  rw [Engine.process_call h.kind]
  cases hc : x.before.isCalling site.node.callee with
  | true =>
    rw [Engine.call_recursive hload hc]
    exact iff_of_true (State.diagnose_mem_report _ _ _) rfl
  | false =>
    refine iff_of_false (fun hmem => ?_) Bool.false_ne_true
    cases hi : (State.ask { x.before with diagnostics := [] } site.node.callee).instantiate site
        function with
    | mk graph s' =>
      have hnone : s'.diagnostics = [] := State.instantiate_diagnostics hi
      rw [Engine.call_made hload hc hi] at hmem
      cases ho : Engine.outputNode? s' site function graph with
      | none =>
        rw [ho] at hmem
        rcases State.mem_report hmem with hmem | heq
        · simp [hnone] at hmem
        · cases congrArg Diagnostic.cause heq
      | some output =>
        rw [ho] at hmem
        dsimp only at hmem
        rw [Engine.enter_eq] at hmem
        cases hp : s'.producer? ⟨graph, output, 0⟩ with
        | none =>
          rw [hp] at hmem
          simp [hnone] at hmem
        | some producer =>
          rw [hp] at hmem
          change _ ∈ s'.diagnostics at hmem
          simp [hnone] at hmem

/-- A call that the guard stops gives zero, and nothing else is evaluated for it. One that passes
gets a graph. -/
theorem IsCall.stopped_or_made (h : x.IsCall settings site) (hx : Course settings x l) :
    (x.before.isCalling site.node.callee = true ∧ l = [x] ∧ x.value = .zero .float1 ∧
      x.after = (x.before.ask site.node.callee).report site.key
        (.recursiveCall site.node.callee)) ∨
    (x.before.isCalling site.node.callee = false ∧ ∃ function graph s',
      settings.resolver.load x.before.loads.length site.node.callee = .ok function ∧
      (x.before.ask site.node.callee).instantiate site function = (graph, s') ∧
      s'.Extends x.after) := by
  obtain ⟨htask, hk, function, hload⟩ := h
  cases hx with
  | leaf hn =>
    cases hn with
    | notLoaded _ herror =>
      cases htask
      cases hload.symm.trans herror
    | recursive _ _ hc =>
      cases htask
      exact .inl ⟨hc, rfl, rfl, rfl⟩
    | unlisted _ hl hc hi =>
      cases htask
      exact .inr ⟨hc, _, _, _, hl, hi, (State.grows_report _ _ _).extends⟩
    | unfed _ hl hc hi =>
      cases htask
      exact .inr ⟨hc, _, _, _, hl, hi, .of_eq rfl rfl rfl⟩
    | outside hi =>
      cases htask
      cases hk.symm.trans hi
    | undeclared hi =>
      cases htask
      cases hk.symm.trans hi
    | _ => cases htask
  | unary hn hy =>
    cases hn with
    | plain hp =>
      cases htask
      exact absurd hk hp
    | called _ hl hc hi =>
      cases htask
      have hinside := hy.runs.grows
      exact .inr ⟨hc, _, _, _, hl, hi,
        ⟨hinside.instances, hinside.statements, hinside.diagnostics⟩⟩
    | passed hi =>
      cases htask
      cases hk.symm.trans hi
    | defaulted hi =>
      cases htask
      cases hk.symm.trans hi
    | _ => cases htask
  | binary hn =>
    cases hn with
    | connected => cases htask

end Evaluation

/-! ### All calls of a run -/

section

variable {settings : Settings} {g : Graph} {s s₁ s₂ s' : State} {x : Evaluation} {d : Diagnostic}
  {xs l l' : List Evaluation}

/-- The diagnostic that a call which the guard stops leads to. -/
def Evaluation.Stopped (settings : Settings) (d : Diagnostic) (y : Evaluation) : Prop :=
  ∃ site, y.IsCall settings site ∧ y.before.isCalling site.node.callee = true ∧
    d = y.before.diagnose site.key (.recursiveCall site.node.callee)

/-- Recipes do not report recursive calls. -/
theorem State.mem_effect {key : BoxKey} {r r' : Recipe Local (Value Local)} (hr : r.CallFree)
    (he : r.effect? settings key s = some (r', s')) (hd : d ∈ s'.diagnostics)
    (hc : ∃ id, d.cause = .recursiveCall id) : d ∈ s.diagnostics := by
  obtain ⟨n, hr⟩ := hr
  cases hr with
  | done => cases he
  | operand => cases he
  | comment =>
    cases he
    split at hd <;> exact hd
  | report hcause =>
    cases he
    rcases mem_report hd with hd | rfl
    · exact hd
    · obtain ⟨id, rfl⟩ := hc
      exact absurd (.malformed _) hcause
  | sample =>
    cases he
    unfold State.sample at hd
    split at hd <;> exact hd
  | @remember _ box value =>
    cases he
    obtain ⟨memory, hm⟩ := s.remember_eq (key.sibling box) value
    rwa [hm] at hd
  | claim =>
    cases he
    unfold State.claim at hd
    split at hd
    · exact hd
    · split at hd <;> exact hd
  | declare => cases he; exact hd
  | block => cases he; exact hd
  | use => cases he; exact hd

/-- A recursive call that is reported during an evaluation is one that the guard stopped. -/
theorem Course.stopped (h : Course settings x l) (hl : ∀ y ∈ l, y.task.Located y.before)
    (hd : d ∈ x.after.diagnostics) (hc : ∃ id, d.cause = .recursiveCall id) :
    d ∈ x.before.diagnostics ∨ ∃ y ∈ l, y.Stopped settings d := by
  -- other reports of an evaluation have other causes
  have hother : ∀ {s : State} {key cause}, d ∈ (s.report key cause).diagnostics →
      (∀ id, cause ≠ .recursiveCall id) → d ∈ s.diagnostics := by
    intro s key cause hd hcause
    rcases State.mem_report hd with hd | rfl
    · exact hd
    · obtain ⟨id, hid⟩ := hc
      exact absurd hid (hcause id)
  induction h with
  | leaf h =>
    cases h with
    | remembered | absent | done => exact .inl hd
    | reentered =>
      exact .inl (hother hd fun id heq => Cause.recursiveCall_ne_dependsOnItself id _ heq.symm)
    | notLoaded =>
      have hbefore := hother hd fun id heq => by cases heq
      exact .inl hbefore
    | @recursive site s function hk hload hcalling =>
      rcases State.mem_report hd with hd | rfl
      · exact .inl hd
      · exact .inr ⟨_, List.mem_cons_self, site, ⟨rfl, hk, function, hload⟩, hcalling, rfl⟩
    | unlisted _ _ _ hi =>
      have hbefore := hother hd fun id heq => by cases heq
      rw [State.instantiate_diagnostics hi] at hbefore
      exact .inl hbefore
    | unfed _ _ _ hi =>
      rw [State.instantiate_diagnostics hi] at hd
      exact .inl hd
    | outside => exact .inl (hother hd fun id heq => Cause.recursiveCall_ne id heq.symm)
    | undeclared => exact .inl (hother hd fun id heq => by cases heq)
  | @unary x y l h _ ih =>
    have hrest := ih fun z hz => hl z (List.mem_cons_of_mem x hz)
    have hkeep : d ∈ y.before.diagnostics → d ∈ x.before.diagnostics := by
      intro hd
      cases h with
      | called _ _ _ hi => exact (State.instantiate_diagnostics hi) ▸ hd
      | effect he => exact State.mem_effect (hl _ List.mem_cons_self).2 he hd hc
      | _ => exact hd
    have hend : d ∈ y.after.diagnostics := by
      cases h with
      | @dispatched key _ _ v s' =>
        obtain ⟨memory, hf⟩ := s'.finish_eq key v
        dsimp only at hd
        rw [hf] at hd
        exact hd
      | _ => exact hd
    exact (hrest hend).imp hkeep fun ⟨z, hz, hstop⟩ => ⟨z, List.mem_cons_of_mem x hz, hstop⟩
  | binary h _ _ ihy ihz =>
    cases h with
    | connected =>
      have hrest := ihz (fun z hz => hl z (List.mem_cons_of_mem _ (List.mem_append_right _ hz))) hd
      rcases hrest with hmid | ⟨z, hz, hstop⟩
      · have hfirst := ihy
          (fun z hz => hl z (List.mem_cons_of_mem _ (List.mem_append_left _ hz))) hmid
        exact hfirst.imp_right fun ⟨z, hz, hstop⟩ =>
          ⟨z, List.mem_cons_of_mem _ (List.mem_append_left _ hz), hstop⟩
      · exact .inr ⟨z, List.mem_cons_of_mem _ (List.mem_append_right _ hz), hstop⟩

/-- What the evaluations of a run account for: `l` are all evaluations between two states. -/
structure Accounts (settings : Settings) (g : Graph) (s : State) (l : List Evaluation)
    (s' : State) : Prop where
  instances : s.instances <+: s'.instances
  diagnostics : s.diagnostics <+: s'.diagnostics
  members : ∀ y ∈ l, y.before.Sound settings g ∧ y.task.Located y.before ∧
    (∃ l', Course settings y l') ∧ y.after.instances <+: s'.instances ∧
    y.after.diagnostics <+: s'.diagnostics
  dispatched : ∀ e ∈ s'.trace, e.underway ≠ [] → e ∈ s.trace ∨ ∃ y ∈ l, ∃ site,
    y.task = .node site ∧ e = .dispatched site.key site.node.kind site.node.id y.before.context
      y.before.active.tail
  stopped : ∀ d ∈ s'.diagnostics, (∃ id, d.cause = .recursiveCall id) →
    d ∈ s.diagnostics ∨ ∃ y ∈ l, y.Stopped settings d

namespace Accounts

theorem of_succession (h : Succession settings g s xs s') (hl : Courses settings xs l) :
    Accounts settings g s l s' := by
  have hmem := h.forall_mem hl
  refine ⟨h.keeps.instances, h.keeps.diagnostics, fun y hy => ?_, fun e he hu =>
    h.dispatched hl he hu, fun d hd hc => ?_⟩
  · obtain ⟨hsound, hlocated, -, hends⟩ := hmem y hy
    obtain ⟨x, -, _, -, hc, hy, -⟩ := h.exists_course hl hy
    obtain ⟨l', hl', -⟩ := hc.mem hy
    exact ⟨hsound, hlocated, ⟨l', hl'⟩, hends.instances, hends.diagnostics⟩
  · clear hmem
    induction h generalizing l with
    | nil => exact .inl hd
    | cons hx _ ih =>
      cases hl with
      | cons hcx hcs =>
        rcases ih hcs hd with hmid | ⟨y, hy, hstop⟩
        · have hlocated := fun y hy => (hcx.sound hx.sound hx.located y hy).2
          rcases hcx.stopped hlocated hmid hc with hbefore | ⟨y, hy, hstop⟩
          · obtain ⟨c, hc⟩ := hx.before
            rw [hc] at hbefore
            exact .inl hbefore
          · exact .inr ⟨y, List.mem_append_left _ hy, hstop⟩
        · exact .inr ⟨y, List.mem_append_right _ hy, hstop⟩

/-- Between two phases of a run nothing is evaluated. -/
theorem of_eq (hi : s'.instances = s.instances) (hd : s'.diagnostics = s.diagnostics)
    (ht : ∀ e ∈ s'.trace, e.underway ≠ [] → e ∈ s.trace) : Accounts settings g s [] s' := by
  refine ⟨hi ▸ List.prefix_refl _, hd ▸ List.prefix_refl _, by simp,
    fun e he hu => .inl (ht e he hu), fun d hmem _ => .inl ?_⟩
  rwa [hd] at hmem

theorem trans (h : Accounts settings g s l s₁) (h' : Accounts settings g s₁ l' s') :
    Accounts settings g s (l ++ l') s' := by
  constructor
  case instances => exact h.instances.trans h'.instances
  case diagnostics => exact h.diagnostics.trans h'.diagnostics
  case members =>
    intro y hy
    rcases List.mem_append.mp hy with hy | hy
    · obtain ⟨hsound, hlocated, hcourse, hi, hd⟩ := h.members y hy
      exact ⟨hsound, hlocated, hcourse, hi.trans h'.instances, hd.trans h'.diagnostics⟩
    · exact h'.members y hy
  case dispatched =>
    intro e he hu
    rcases h'.dispatched e he hu with he | ⟨y, hy, hrest⟩
    · refine (h.dispatched e he hu).imp_right fun ⟨y, hy, hrest⟩ => ?_
      exact ⟨y, List.mem_append_left _ hy, hrest⟩
    · exact .inr ⟨y, List.mem_append_right _ hy, hrest⟩
  case stopped =>
    intro d hd hc
    rcases h'.stopped d hd hc with hd | ⟨y, hy, hstop⟩
    · refine (h.stopped d hd hc).imp_right fun ⟨y, hy, hstop⟩ => ?_
      exact ⟨y, List.mem_append_left _ hy, hstop⟩
    · exact .inr ⟨y, List.mem_append_right _ hy, hstop⟩

end Accounts

/-- An event that is no dispatch is noted. -/
theorem Accounts.record (s : State) {e : Event} (he : e.underway = []) :
    Accounts settings g s [] (s.record e) := by
  refine .of_eq rfl rfl fun e' hmem hu => ?_
  rcases List.mem_cons.mp hmem with rfl | hmem
  · exact absurd he hu
  · exact hmem

namespace Accounts

variable {site : Site}

/-- A node that is evaluated is the one that its graph has in the end. -/
theorem node_eq (h : Accounts settings g s l s') (hx : x ∈ l) (htask : x.task = .node site) :
    node? s'.instances site.key.graph site.key.node = some site.node := by
  obtain ⟨-, hlocated, ⟨l', hcourse⟩, hp, -⟩ := h.members x hx
  rw [htask] at hlocated
  have hn := State.node?_of_site? hlocated.2
  exact node?_mono (hcourse.runs.grows.instances.trans hp) hn

theorem refuses_iff (h : Accounts settings g s l s') (hx : x ∈ l) (hcall : x.IsCall settings site) :
    x.Refuses settings site ↔ OnTheWay s'.instances site.node.callee site.key.graph := by
  obtain ⟨hsound, hlocated, ⟨l', hcourse⟩, hp, -⟩ := h.members x hx
  rw [hcall.task] at hlocated
  have hlt := lt_of_node? (State.node?_of_site? hlocated.2)
  rw [hcall.refuses_iff, State.isCalling_iff hsound hlocated.1,
    hsound.tree.onTheWay_iff (hcourse.runs.grows.instances.trans hp) hlt]

/-- A refused call gives zero and leads nowhere, and the material tells of it. -/
theorem refused (h : Accounts settings g s l s') (ht : CallTree settings g s'.instances)
    (hx : x ∈ l) (hcall : x.IsCall settings site) (hr : x.Refuses settings site) :
    x.value = .zero .float1 ∧ Course settings x [x] ∧
      s'.instanceOf? site.key.graph site.key.node = none ∧
      x.before.diagnose site.key (.recursiveCall site.node.callee) ∈ s'.diagnostics := by
  obtain ⟨-, -, ⟨l', hcourse⟩, -, hd⟩ := h.members x hx
  obtain ⟨c, hc, hway⟩ := (h.refuses_iff hx hcall).mp hr
  rcases hcall.stopped_or_made hcourse with ⟨-, rfl, hvalue, hafter⟩ | ⟨hfree, -⟩
  · refine ⟨hvalue, hcourse, ?_, ?_⟩
    · cases hi : s'.instanceOf? site.key.graph site.key.node with
      | none => rfl
      | some i =>
        -- a graph made for the call would be one of a function on the way to itself
        obtain ⟨o, ho, hcaller, hsite⟩ := State.instanceOf?_some hi
        obtain ⟨-, node, hn, -, _, hload⟩ := ht.caller i o ho
        rw [hcaller, hsite, h.node_eq hx hcall.task] at hn
        obtain rfl : site.node = node := Option.some.inj hn
        obtain ⟨j, hj, o', ho', hid⟩ := mem_called.mp hway
        rw [← hcaller] at hc
        exact absurd (hid.trans (Resolver.load_ok hload).2.symm) (ht.fresh i o c ho hc j hj o' ho')
    · apply hd.subset
      rw [hafter]
      exact State.diagnose_mem_report _ _ _
  · rw [hcall.refuses_iff, hfree] at hr
    cases hr

/-- A call that is not refused has a graph of the function it calls. -/
theorem made (h : Accounts settings g s l s') (ht : CallTree settings g s'.instances)
    (hx : x ∈ l) (hcall : x.IsCall settings site) (hr : ¬x.Refuses settings site) :
    ∃ i o, s'.instanceOf? site.key.graph site.key.node = some i ∧
      origin? s'.instances i = some o ∧ o.function.id = site.node.callee := by
  obtain ⟨hsound, hlocated, ⟨l', hcourse⟩, hp, -⟩ := h.members x hx
  rw [hcall.task] at hlocated
  rcases hcall.stopped_or_made hcourse with ⟨hc, -⟩ | ⟨hc, function, i, s₁, hload, hi, hext⟩
  · exact absurd (hcall.refuses_iff.mpr hc) hr
  · obtain ⟨-, o, ho, hcaller, hsite, hid⟩ :=
      hsound.ask.instantiate hlocated.1 hlocated.2 hcall.kind hload hc hi
    have ho := origin?_mono (hext.instances.trans hp) ho
    refine ⟨i, o, ?_, ho, hid⟩
    rw [← hcaller, ← hsite]
    exact ht.instanceOf?_eq ho

/-- The recursive calls that are reported are those that were refused. -/
theorem reported_iff (h : Accounts settings g s l s') (ht : CallTree settings g s'.instances)
    (h0 : s.diagnostics = []) (d : Diagnostic) :
    (d ∈ s'.diagnostics ∧ ∃ id, d.cause = .recursiveCall id) ↔
      ∃ x ∈ l, ∃ site, x.IsCall settings site ∧ x.Refuses settings site ∧
        d = x.before.diagnose site.key (.recursiveCall site.node.callee) := by
  constructor
  · rintro ⟨hd, hc⟩
    rcases h.stopped d hd hc with hd | ⟨x, hx, site, hcall, hcalling, rfl⟩
    · simp [h0] at hd
    · exact ⟨x, hx, site, hcall, hcall.refuses_iff.mpr hcalling, rfl⟩
  · rintro ⟨x, hx, site, hcall, hr, rfl⟩
    exact ⟨(h.refused ht hx hcall hr).2.2.2, _, rfl⟩

/-- Two calls of one function, the graph of the second being reached by calls `p` from a graph on
the way to the first: if the first is not refused, only a call among `p` can get the second one
refused. -/
theorem refuses_below {y : Evaluation} {site' : Site} {c p a : List Nat}
    (h : Accounts settings g s l s') (ht : CallTree settings g s'.instances) (hx : x ∈ l)
    (hy : y ∈ l) (hcall : x.IsCall settings site) (hcall' : y.IsCall settings site')
    (hid : site'.node.callee = site.node.callee)
    (hc : Lineage s'.instances site.key.graph c) (ha : a <:+ c)
    (hc' : Lineage s'.instances site'.key.graph (p ++ a)) (hr : ¬x.Refuses settings site) :
    y.Refuses settings site' ↔ site'.node.callee ∈ called s'.instances p := by
  have hfree : site'.node.callee ∉ called s'.instances a := by
    intro hmem
    obtain ⟨b, rfl⟩ := ha
    refine hr ((h.refuses_iff hx hcall).mpr ⟨b ++ a, hc, ?_⟩)
    rw [called, List.filterMap_append]
    exact List.mem_append_right _ (hid ▸ hmem)
  have happend : called s'.instances (p ++ a) = called s'.instances p ++ called s'.instances a :=
    List.filterMap_append
  rw [h.refuses_iff hy hcall']
  constructor
  · rintro ⟨c', hl, hmem⟩
    rw [hl.unique ht.origin?_root hc', happend] at hmem
    exact (List.mem_append.mp hmem).resolve_right hfree
  · intro hmem
    refine ⟨p ++ a, hc', ?_⟩
    rw [happend]
    exact List.mem_append_left _ hmem

end Accounts

/-- The evaluations of both stages. -/
theorem Generator.accounts {gen : Generator} (h : gen.state.Idle gen.settings gen.material) :
    ∃ l, Courses gen.settings (gen.evaluations .pixel ++ gen.evaluations .vertex) l ∧
      Accounts gen.settings gen.material gen.state l gen.generate.2.state := by
  cases ho : gen.material.findKind? .materialOutput with
  | none =>
    rw [evaluations_none ho, evaluations_none ho, generate_none ho]
    exact ⟨[], .nil, .of_eq rfl rfl fun _ he _ => he⟩
  | some output =>
    obtain ⟨s₁, s₂, pixel, vertex, heq, hpixel, hvertex⟩ := generate_succession h ho
    obtain ⟨l, hl⟩ := hpixel.courses
    obtain ⟨l', hl'⟩ := hvertex.courses
    have hbegin : ∀ (s : State) stage,
        Accounts gen.settings gen.material s [] (s.beginStage stage) := by
      intro s stage
      have hnoted : Accounts gen.settings gen.material s [] (s.record (.stageBegun stage)) :=
        .record s rfl
      exact ⟨hnoted.instances, hnoted.diagnostics, hnoted.members, hnoted.dispatched,
        hnoted.stopped⟩
    have hwriter : ∀ s : State, Accounts gen.settings gen.material s [] s.takeWriter.2 :=
      fun s => .of_eq rfl rfl fun _ he _ => he
    have hfirst := (hbegin gen.state .pixel).trans (.of_succession hpixel hl)
    have hsecond := ((hwriter s₁).trans (hbegin _ .vertex)).trans (.of_succession hvertex hl')
    have hlast := (hwriter s₂).trans (Accounts.record s₂.takeWriter.2
      (e := .finished s₂.slots.length s₂.diagnostics.length) rfl)
    rw [heq]
    refine ⟨l ++ l', hl.append hl', ?_⟩
    have hall := hfirst.trans (hsecond.trans hlast)
    simpa using hall

end

/-- The recursion guard is exact, for every graph, all libraries and every run: a call of a function
that can be loaded is reported as recursive if and only if the function is called on the way from
the material graph to the graph of the call. A refused call gives zero, evaluates nothing and never
gets a graph; every other call has one. So no function is called twice on the way to a graph, and of
two calls of one function, the second in a graph on the way to the first or below it, the second is
refused only for a call of the function in between: never where it stands in an argument of the
first. -/
theorem recursion_guard_exact (g : Graph) (domain : Domain) (resolver : Resolver) (config : Config)
    (requests : List Request) :
    let start := (Generator.new g domain resolver).withConfig config
    let gen := start.after requests
    let last := gen.generate.2.state
    ∃ l, Courses start.settings
        (start.requested requests ++ (gen.evaluations .pixel ++ gen.evaluations .vertex)) l ∧
      (∀ e ∈ last.trace, e.underway ≠ [] → ∃ x ∈ l, ∃ site, x.task = .node site ∧
        e = .dispatched site.key site.node.kind site.node.id x.before.context
          x.before.active.tail) ∧
      (∀ x ∈ l, ∀ site, x.task = .node site →
        node? last.instances site.key.graph site.key.node = some site.node) ∧
      (∀ x ∈ l, ∀ site, x.IsCall start.settings site →
        (x.Refuses start.settings site ↔
          OnTheWay last.instances site.node.callee site.key.graph) ∧
        (x.Refuses start.settings site → x.value = .zero .float1 ∧
          Course start.settings x [x] ∧
          last.instanceOf? site.key.graph site.key.node = none) ∧
        (¬x.Refuses start.settings site → ∃ i o,
          last.instanceOf? site.key.graph site.key.node = some i ∧
          origin? last.instances i = some o ∧ o.function.id = site.node.callee)) ∧
      (∀ d, (d ∈ last.diagnostics ∧ ∃ id, d.cause = .recursiveCall id) ↔
        ∃ x ∈ l, ∃ site, x.IsCall start.settings site ∧ x.Refuses start.settings site ∧
          d = x.before.diagnose site.key (.recursiveCall site.node.callee)) ∧
      (∀ i c, Lineage last.instances i c → (called last.instances c).Nodup) ∧
      ∀ x ∈ l, ∀ y ∈ l, ∀ site site', x.IsCall start.settings site →
        y.IsCall start.settings site' → site'.node.callee = site.node.callee →
        ∀ c p a, Lineage last.instances site.key.graph c → a <:+ c →
        Lineage last.instances site'.key.graph (p ++ a) → ¬x.Refuses start.settings site →
        (y.Refuses start.settings site' ↔ site'.node.callee ∈ called last.instances p) := by
  intro start gen last
  have hstart : start.state.Idle start.settings start.material :=
    ⟨State.sound_ofGraph _ g, rfl, rfl⟩
  obtain ⟨hsettings, hmaterial, hidle, -⟩ := Generator.after_induction (fun _ => True)
    (fun _ _ _ _ _ _ h => h) hstart trivial requests
  have hgen : gen.state.Idle gen.settings gen.material := by rw [hsettings, hmaterial]; exact hidle
  have hrequests := Generator.requested_succession hstart requests
  obtain ⟨l₁, hl₁⟩ := hrequests.courses
  obtain ⟨l₂, hl₂, hstages⟩ := gen.accounts hgen
  have hlast : last.Idle gen.settings gen.material := Generator.generate_idle hgen
  rw [hsettings, hmaterial] at hlast hstages
  rw [hsettings] at hl₂
  have hall : Accounts start.settings start.material start.state (l₁ ++ l₂) last :=
    (Accounts.of_succession hrequests hl₁).trans hstages
  have ht := hlast.sound.tree
  refine ⟨l₁ ++ l₂, hl₁.append hl₂, fun e he hu => ?_, fun x hx site => hall.node_eq hx,
    fun x hx site hcall => ⟨hall.refuses_iff hx hcall, fun hr => ?_, hall.made ht hx hcall⟩,
    hall.reported_iff ht rfl, fun i c => ht.nodup_called, ?_⟩
  · refine (hall.dispatched e he hu).resolve_left fun h => ?_
    exact absurd h List.not_mem_nil
  · obtain ⟨hvalue, hcourse, hnone, -⟩ := hall.refused ht hx hcall hr
    exact ⟨hvalue, hcourse, hnone⟩
  · intro x hx y hy site site' hcall hcall' hid c p a hc ha hc'
    exact hall.refuses_below ht hx hy hcall hcall' hid hc ha hc'

/-! ### Calls in arguments -/

/-- A function that passes its argument on to another call. -/
def wrapping : MaterialFunction where
  id := ⟨8⟩
  graph := ⟨[.ofKind 1 .functionInput [],
    (Node.ofKind 2 .materialFunction [.asset doubling.id]).fed 0 ⟨0, 0⟩,
    (Node.ofKind 3 .functionOutput []).fed 0 ⟨1, 16⟩]⟩
  inputs := [1]
  outputs := [3]

/-- A function that calls itself. -/
def looping : MaterialFunction where
  id := ⟨9⟩
  graph := ⟨[.ofKind 1 .materialFunction [.asset ⟨9⟩],
    (Node.ofKind 2 .functionOutput []).fed 0 ⟨0, 16⟩]⟩
  inputs := []
  outputs := [2]

/-- Its color is doubled twice, the second time within another function. -/
def nesting : Graph :=
  ⟨[((Node.ofKind 1 .materialOutput []).fed 0 ⟨1, 16⟩).fed 2 ⟨4, 16⟩,
    (Node.ofKind 2 .materialFunction [.asset wrapping.id]).fed 0 ⟨2, 16⟩,
    (Node.ofKind 3 .materialFunction [.asset doubling.id]).fed 0 ⟨3, 0⟩,
    .ofKind 4 .cameraVector [],
    .ofKind 5 .materialFunction [.asset looping.id]]⟩

def nestingLibrary : Library := ⟨[.loaded doubling, .loaded wrapping, .loaded looping]⟩

/-- The inner call is evaluated while the outer one is under way, and is not refused. -/
theorem nested_call_not_refused :
    let start := (Generator.new nesting .surface ⟨[nestingLibrary]⟩).withConfig {}
    let last := (start.after []).generate.2.state
    (∃ (x : Evaluation) (site : Site), x.IsCall start.settings site ∧ site.key.graph = 0 ∧
      site.key.node = 2 ∧ site.node.callee = doubling.id ∧
      (node? last.instances 1 1).map (·.callee) = some doubling.id ∧ (1, 1) ∈ x.before.active ∧
      ¬x.Refuses start.settings site) ∧
    ∃ (x : Evaluation) (site : Site), x.IsCall start.settings site ∧
      x.Refuses start.settings site := by
  have hall := recursion_guard_exact nesting .surface ⟨[nestingLibrary]⟩ {} []
  have hinner : (((Generator.new nesting .surface ⟨[nestingLibrary]⟩).withConfig {}).after
      []).generate.2.state.trace.any (fun e =>
        e.underway.head? == some (0, 2) && e.underway.tail.contains (1, 1)) = true := by
    decide +kernel
  have hcallee : (node? (((Generator.new nesting .surface ⟨[nestingLibrary]⟩).withConfig {}).after
      []).generate.2.state.instances 0 2).map (fun n => (n.kind, n.callee)) =
      some (.materialFunction, doubling.id) := by decide +kernel
  have houter : (node? (((Generator.new nesting .surface ⟨[nestingLibrary]⟩).withConfig {}).after
      []).generate.2.state.instances 1 1).map (·.callee) = some doubling.id := by decide +kernel
  have hroot : origin? (((Generator.new nesting .surface ⟨[nestingLibrary]⟩).withConfig {}).after
      []).generate.2.state.instances 0 = none := by decide +kernel
  have hrefused : (((Generator.new nesting .surface ⟨[nestingLibrary]⟩).withConfig {}).after
      []).generate.2.state.diagnostics.any (fun d => d.cause == .recursiveCall looping.id) =
      true := by decide +kernel
  dsimp only at hall ⊢
  generalize (((Generator.new nesting .surface ⟨[nestingLibrary]⟩).withConfig {}).after
    []).generate.2.state = last at hall hinner hcallee houter hroot hrefused ⊢
  obtain ⟨l, -, htrace, hnode, hexact, hreported, -⟩ := hall
  constructor
  · obtain ⟨e, he, hunder⟩ := List.any_eq_true.mp hinner
    simp only [Bool.and_eq_true, beq_iff_eq, List.contains_iff_mem] at hunder
    obtain ⟨x, hx, site, htask, rfl⟩ := htrace e he (by rintro hnil; simp [hnil] at hunder)
    obtain ⟨hgraph, hsite⟩ := Prod.mk.inj (Option.some.inj hunder.1)
    have hn := hnode x hx site htask
    rw [hgraph, hsite] at hn
    rw [hn] at hcallee
    obtain ⟨hkind, hid⟩ := Prod.mk.inj (Option.some.inj hcallee)
    have hcall : x.IsCall ((Generator.new nesting .surface ⟨[nestingLibrary]⟩).withConfig
        {}).settings site := by
      refine ⟨htask, hkind, doubling, ?_⟩
      rw [hid]
      exact (Resolver.load_single nestingLibrary _ _).trans rfl
    refine ⟨x, site, hcall, hgraph, hsite, hid, houter, List.mem_of_mem_tail hunder.2, fun hr => ?_⟩
    obtain ⟨c, hc, hmem⟩ := (hexact x hx site hcall).1.mp hr
    rw [hgraph] at hc
    rw [hc.unique hroot .root] at hmem
    simp [called, hroot] at hmem
  · obtain ⟨d, hd, hcause⟩ := List.any_eq_true.mp hrefused
    obtain ⟨x, -, site, hcall, hr, -⟩ := (hreported d).mp ⟨hd, _, by simpa using hcause⟩
    exact ⟨x, site, hcall, hr⟩

end ShaderGraph
