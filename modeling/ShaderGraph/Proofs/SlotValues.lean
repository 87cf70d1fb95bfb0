import ShaderGraph.Proofs.Interpolants

/-! The two ways in which the vertex stage computes an interpolant agree: filling the slot of a node
and evaluating the node itself. Both read the input of the node, at different times and in different
contexts. In a stage without problems every evaluation of a box gives the value that is remembered
in the end, so they read the same. -/

namespace ShaderGraph

open CallTree CustomCode

/-! ### While a node is under way -/

namespace Recipe

theorem Until.imp {ρ α : Type} {P Q : Recipe ρ α → Prop} {r : Recipe ρ α} (h : r.Until P)
    (hPQ : ∀ r, P r → Q r) : r.Until Q := by
  induction h with
  | here h => exact .here (hPQ _ h)
  | operand _ ih => exact .operand ih
  | declare _ ih => exact .declare ih
  | comment _ ih => exact .comment ih
  | report _ ih => exact .report ih
  | use _ ih => exact .use ih
  | sample _ ih => exact .sample ih
  | claim _ ih => exact .claim ih

/-- What custom code does last: it writes its block, and its outputs are remembered. -/
def IsBlock (r : Recipe Local (Value Local)) : Prop :=
  ∃ body a outputs, r = .block body (rememberOutputs (.done a) outputs 0)

theorem customCode_until {site : Site} {text : String} {i : Nat} (hc : site.node.IsCustom text)
    (hi : output? site.box = some i) : (customCode site).Until IsBlock := by
  rw [customCode_eq hc hi]
  refine .use ((Related.customOutputs (n := 0) site).simple.bind fun outputs => ?_)
  refine (customRest_until site text i outputs).imp ?_
  rintro _ ⟨inputs, rfl⟩
  exact ⟨_, _, _, rfl⟩

end Recipe

section

variable {settings : Settings} {table : List Instance} {p : Nat × Nat} {key : BoxKey}
  {x y : Evaluation} {s s' : State} {v : Value Local} {l : List Evaluation}

/-- Nothing changes for a node while it is under way. -/
theorem Course.sameAt_within (h : Course settings x l) (ha : p ∈ x.before.active)
    (hs : x.task.Spares p) : ∀ y ∈ l, State.SameAt p x.before y.before := by
  refine fun y hy => (h.forall_mem (Q := fun y => p ∈ y.before.active ∧ y.task.Spares p ∧
    State.SameAt p x.before y.before) ?_ ?_ ⟨ha, hs, .refl p _⟩ y hy).2.2
  · rintro z y hn ⟨hact, hspares, hsame⟩
    obtain ⟨hopen, -, hnext⟩ := hn.sameAt_unary hspares (hn.place_ne hact)
    exact ⟨hn.during.active.subset hact, hnext, hsame.trans hopen⟩
  · rintro z y w hn ⟨hact, hspares, hsame⟩ hy -
    obtain ⟨hb, hm, -, hsy, hsw⟩ := hn.binary hspares
    obtain ⟨ly, hly⟩ := hy.course
    have hacty : p ∈ y.before.active := hb ▸ hact
    have hframe := (hly.frame hacty hsy).1
    refine ⟨⟨hacty, hsy, hb ▸ hsame⟩, ?_, hsw, hm ▸ (hb ▸ hsame).trans hframe⟩
    rw [hm, hy.grows.active]
    exact hacty

/-- The same for the boxes that a recipe of the node evaluates before anything is remembered. -/
theorem Course.sameAt_until {P : Recipe Local (Value Local) → Prop}
    {r : Recipe Local (Value Local)} (hr : r.Until P)
    (hP : ∀ r s v s' l, P r → Course settings ⟨.recipe key r, s, v, s'⟩ l →
      ∀ y ∈ l, ∀ box, y.task ≠ .box box)
    (h : Course settings ⟨.recipe key r, s, v, s'⟩ l) (ha : key.place ∈ s.active) :
    ∀ y ∈ l, ∀ box, y.task = .box box → State.SameAt key.place s y.before := by
  have heffect : ∀ {r r' : Recipe Local (Value Local)} {s s₁ : State} {l : List Evaluation},
      Course settings ⟨.recipe key r, s, v, s'⟩ l → r.effect? settings key s = some (r', s₁) →
      s₁.memory = s.memory → key.place ∈ s.active →
      (∀ {l}, Course settings ⟨.recipe key r', s₁, v, s'⟩ l → key.place ∈ s₁.active →
        ∀ y ∈ l, ∀ box, y.task = .box box → State.SameAt key.place s₁ y.before) →
      ∀ y ∈ l, ∀ box, y.task = .box box → State.SameAt key.place s y.before := by
    intro r r' s s₁ l h he hm ha hrest y hy box ht
    obtain ⟨l', rfl, h'⟩ := h.of_effect he
    rcases List.mem_cons.mp hy with rfl | hy
    · cases ht
    · have hsame : State.SameAt key.place s s₁ := .of_eq hm (State.sameLog_effect he).computed
      exact hsame.trans (hrest h' ((State.grows_effect s he).active ▸ ha) y hy box ht)
  induction hr generalizing s l with
  | here hp => exact fun y hy box ht => absurd ht (hP _ _ _ _ _ hp h y hy box)
  | @operand box next _ ih =>
    intro y hy box ht
    rcases h.of_operand with ⟨l', rfl, h'⟩ | ⟨producer, a, s₁, l₁, l₂, rfl, hbox, h'⟩
    · rcases List.mem_cons.mp hy with rfl | hy
      · cases ht
      · exact ih none h' ha y hy box ht
    · rcases List.mem_cons.mp hy with rfl | hy
      · cases ht
      · rcases List.mem_append.mp hy with hy | hy
        · exact hbox.sameAt_within ha trivial y hy
        · have hsame : State.SameAt key.place s s₁ := (hbox.frame ha trivial).1
          have hact : key.place ∈ s₁.active := hbox.runs.grows.active ▸ ha
          exact hsame.trans (ih (some a) h' hact y hy box ht)
  | declare _ ih => exact heffect h rfl rfl ha (ih _)
  | comment _ ih =>
    refine heffect h rfl ?_ ha ih
    split <;> rfl
  | report _ ih => exact heffect h rfl (State.SameCode.report s key _).memory ha ih
  | use _ ih => exact heffect h rfl rfl ha ih
  | sample _ ih => exact heffect h rfl (State.SameCode.sample s _).memory ha ih
  | claim _ ih => exact heffect h rfl (State.SameCode.claim s settings key _).memory ha (ih _)

/-- When a node is evaluated, nothing changes for it before the last box that it needs. -/
theorem Course.sameAt_boxes {site : Site} (h : Course settings ⟨.node site, s, v, s'⟩ l)
    (ha : site.key.place ∈ s.active) :
    ∀ y ∈ l, ∀ box, y.task = .box box → State.SameAt site.key.place s y.before := by
  by_cases hcustom : ∃ text i, site.node.IsCustom text ∧ output? site.box = some i
  · obtain ⟨text, i, hc, hi⟩ := hcustom
    have hrecipe : (site.recipe settings.domain s.stage : Recipe Local _) = .customCode site := by
      unfold Site.recipe
      rw [hc.kind]
    obtain ⟨l', rfl, h'⟩ := h.of_plain (by simp [hc.kind]) (by simp [hc.kind])
    rw [hrecipe] at h'
    intro y hy box ht
    rcases List.mem_cons.mp hy with rfl | hy
    · cases ht
    · refine h'.sameAt_until (Recipe.customCode_until hc hi) ?_ ha y hy box ht
      -- after the block no box is evaluated
      rintro _ s v s' l ⟨body, a, outputs, rfl⟩ hblock y hy box ht
      obtain ⟨l', rfl, hrest⟩ := hblock.of_effect rfl
      rcases List.mem_cons.mp hy with rfl | hy
      · cases ht
      · exact hrest.of_rememberOutputs.2.2.2 y hy box ht
  · have hspares : (Task.node site).Spares site.key.place := by
      refine .inr fun domain stage => Site.recipe_simple (fun text ht => ?_) domain stage
      by_contra hne
      obtain ⟨i, hi⟩ := Option.ne_none_iff_exists'.mp hne
      exact hcustom ⟨text, i, ht, hi⟩
    exact fun y hy _ _ => h.sameAt_within ha hspares y hy

/-! ### What is remembered stays -/

/-- What is remembered of a node when any box is evaluated stays so to the end. -/
theorem Course.remembered_kept (h : Course settings x l) (hw : WellFormed table)
    (ht : x.after.instances <+: table) (hs : x.task.Spares p) (ha : p ∉ x.before.active)
    (hset : x.before.Settled table p)
    (hadm : ∀ key, x.task = .box key → key.place = p → x.before.Admits table key) :
    ∀ y ∈ l, ∀ box, y.task = .box box → ∀ key v, key.place = p →
      y.before.remembered? key = some v → x.after.remembered? key = some v := by
  induction h with
  | leaf h =>
    intro y hy _ _ key v hp hm
    obtain rfl := List.mem_singleton.mp hy
    rw [(h.sameAt p).memory key hp]
    exact hm
  | @unary x y l h hy ih =>
    have hpass := (Course.unary h hy).passage hw ht hs ha hset hadm
    have hty : y.after.instances <+: table := h.during.ends.instances.trans ht
    intro z hz box htz key v hp hm
    rcases List.mem_cons.mp hz with rfl | hmem
    · exact hpass.kept key v hp hm
    · by_cases hd : ∃ site, y.task = .node site ∧ site.key.place = p
      · -- the node itself is evaluated, and does not change before its last box
        obtain ⟨site, hsite, rfl⟩ := hd
        cases h with
        | dispatched _ hs =>
          cases hsite
          obtain rfl := State.key_of_site? hs
          have hsame := hy.sameAt_boxes List.mem_cons_self z hmem box htz
          exact hpass.kept key v hp ((hsame.memory key hp).symm.trans hm)
        | _ => cases hsite
      · have hd : ∀ site, y.task = .node site → site.key.place ≠ p :=
          fun site hsite hp => hd ⟨site, hsite, hp⟩
        obtain ⟨hopen, hclose, hspares⟩ := h.sameAt_unary hs hd
        have hbefore : y.before.instances <+: table := hy.runs.grows.instances.trans hty
        rw [hclose.memory key hp]
        exact ih hty hspares (h.not_active hd ha) (hset.of_sameAt hopen)
          (fun key hk _ => State.admits_of_feeds hw hbefore (h.feeds (hw.of_prefix hbefore) hk))
          z hmem box htz key v hp hm
  | @binary x y z l l' h hy hz ihy ihz =>
    obtain ⟨hb, hm, he, hsy, hsz⟩ := h.binary hs
    have htz : z.after.instances <+: table := he ▸ ht
    have hty : y.after.instances <+: table := hm ▸ hz.runs.grows.instances.trans htz
    have hbefore : y.before.instances <+: table := hy.runs.grows.instances.trans hty
    obtain ⟨hfeeds, hnobox⟩ := h.feeds_two (hw.of_prefix hbefore)
    have hady : ∀ key, y.task = .box key → key.place = p → y.before.Admits table key :=
      fun key hk _ => State.admits_of_feeds hw hbefore (hfeeds key hk)
    have hadz : ∀ key, z.task = .box key → key.place = p → z.before.Admits table key :=
      fun key hk _ => absurd hk (hnobox key)
    have hacty : p ∉ y.before.active := hb ▸ ha
    have hactz : p ∉ z.before.active := by
      rw [hm, hy.runs.grows.active]
      exact hacty
    have hsety : y.before.Settled table p := hb ▸ hset
    have hsetz : z.before.Settled table p :=
      hm ▸ (hy.passage hw hty hsy hacty hsety hady).settled
    intro w hw' box htw key v hp hmem
    rw [he]
    rcases List.mem_cons.mp hw' with rfl | hw'
    · cases h
      cases htw
    · rcases List.mem_append.mp hw' with hw' | hw'
      · refine (hz.passage hw htz hsz hactz hsetz hadz).kept key v hp ?_
        rw [hm]
        exact ihy hty hsy hacty hsety hady w hw' box htw key v hp hmem
      · exact ihz htz hsz hactz hsetz hadz w hw' box htw key v hp hmem

end

section

variable {settings : Settings} {g : Graph} {table : List Instance} {p : Nat × Nat}
  {x y : Evaluation} {s s' : State} {xs l : List Evaluation}

theorem Succession.remembered_kept (h : Succession settings g s xs s')
    (hl : Courses settings xs l) (hw : WellFormed table) (ht : s'.instances <+: table)
    (hset : s.Settled table p) (hnobox : ∀ x ∈ xs, ∀ key, x.task ≠ .box key) :
    ∀ y ∈ l, ∀ box, y.task = .box box → ∀ key v, key.place = p →
      y.before.remembered? key = some v → s'.remembered? key = some v := by
  induction h generalizing l with
  | nil =>
    cases hl
    simp
  | @cons s x xs s' hx hxs ih =>
    cases hl with
    | @cons _ _ lx ly hc hcs =>
      obtain ⟨hxbox, hxsbox⟩ := List.forall_mem_cons.mp hnobox
      obtain ⟨c, hbefore⟩ := hx.before
      have hopen : State.SameAt p s x.before := by
        rw [hbefore]
        exact .of_eq rfl rfl
      have hclose : State.SameAt p x.after (s.resume x) := .of_eq rfl rfl
      have hactive : p ∉ x.before.active := by
        rw [hbefore, hx.idle.active]
        exact List.not_mem_nil
      have htx : x.after.instances <+: table := hxs.keeps.instances.trans ht
      have hsetx := hset.of_sameAt hopen
      have hadm : ∀ key, x.task = .box key → key.place = p → x.before.Admits table key :=
        fun key hk _ => absurd hk (hxbox key)
      have hsety : (s.resume x).Settled table p :=
        (hc.passage hw htx (hx.top.spares p) hactive hsetx hadm).settled.of_sameAt hclose
      intro y hy box hty key v hp hm
      rcases List.mem_append.mp hy with hy | hy
      · have hafter := hc.remembered_kept hw htx (hx.top.spares p) hactive hsetx hadm y hy box hty
          key v hp hm
        refine (hxs.passage hcs hw ht hsety fun x hx key hk _ => absurd hk (hxsbox x hx key)).kept
          key v hp ?_
        rw [hclose.memory key hp]
        exact hafter
      · exact ih hcs ht hsety hxsbox y hy box hty key v hp hm

/-- In a stage without problems, every evaluation of a box gives what is remembered in the end. -/
theorem StageRun.agree_of_clean (h : StageRun settings g table s xs s')
    (hl : Courses settings xs l) (hclean : s'.diagnostics = []) {key : BoxKey} (hy : y ∈ l)
    (ht : y.task = .box key) : s'.remembered? key = some y.value := by
  by_cases ha : key.place ∈ y.before.active
  · obtain ⟨x, -, l', hsub, hc, hmem, -⟩ := h.succession.exists_course hl hy
    obtain ⟨ly, hcy, -⟩ := hc.mem hmem
    have hkept := h.succession.remembered_kept hl h.wellFormed h.instances
      (State.settled_of_nil (p := key.place) h.memory h.computed) h.noBoxes y hy key ht key
    obtain ⟨hsound, -, -, hends⟩ := h.succession.forall_mem hl y hy
    have hnone : y.after.diagnostics = [] := List.prefix_nil.mp (hclean ▸ hends.diagnostics)
    obtain ⟨task, before, value, after⟩ := y
    obtain rfl : task = .box key := ht
    cases hcy with
    | leaf hn =>
      cases hn with
      | remembered hm => exact hkept value rfl hm
      | absent _ hs =>
        obtain ⟨node, hnode⟩ := hsound.active.exists_node _ ha
        obtain ⟨inst, hi, hn⟩ := Option.bind_eq_some_iff.mp hnode
        have hi : before.instance? key.graph = some inst := hi
        have hn : inst.graph.node? key.node = some node := hn
        simp [State.site?, hi, hn] at hs
      | @reentered _ _ site =>
        have hreport := State.diagnose_mem_report before key (.dependsOnItself site.node.id)
        rw [hnone] at hreport
        cases hreport
    | unary hn =>
      cases hn with
      | dispatched _ _ hact => exact absurd ha hact
    | binary hn => cases hn
  · exact (h.passage hl key.place).agree y hy key ht rfl ha

/-! ### Where values come from -/

/-- Nothing changes for a node that is not evaluated. -/
theorem Course.sameAt_of_unvisited (h : Course settings x l) (hs : x.task.Spares p)
    (hno : ∀ y ∈ l, ∀ site, y.task = .node site → site.key.place ≠ p) :
    State.SameAt p x.before x.after := by
  induction h with
  | leaf h => exact h.sameAt p
  | @unary x y l h hy ih =>
    have hrest := (List.forall_mem_cons.mp hno).2
    obtain ⟨hopen, hclose, hspares⟩ := h.sameAt_unary hs (hrest y hy.self_mem)
    exact hopen.trans ((ih hspares hrest).trans hclose)
  | @binary x y z l l' h hy hz ihy ihz =>
    obtain ⟨hb, hm, he, hsy, hsz⟩ := h.binary hs
    obtain ⟨hfirst, hsecond⟩ := List.forall_mem_append.mp (List.forall_mem_cons.mp hno).2
    have hleft := ihy hsy hfirst
    have hright := ihz hsz hsecond
    rw [hb] at hleft
    rw [hm, ← he] at hright
    exact hleft.trans hright

theorem Succession.sameAt_of_unvisited (h : Succession settings g s xs s')
    (hl : Courses settings xs l)
    (hno : ∀ y ∈ l, ∀ site, y.task = .node site → site.key.place ≠ p) : State.SameAt p s s' := by
  induction h generalizing l with
  | nil => exact .refl p _
  | @cons s x xs s' hx _ ih =>
    cases hl with
    | cons hc hcs =>
      obtain ⟨hfirst, hrest⟩ := List.forall_mem_append.mp hno
      obtain ⟨c, hbefore⟩ := hx.before
      have hopen : State.SameAt p s x.before := by
        rw [hbefore]
        exact .of_eq rfl rfl
      have hclose : State.SameAt p x.after (s.resume x) := .of_eq rfl rfl
      have hcourse := hc.sameAt_of_unvisited (hx.top.spares p) hfirst
      exact (hopen.trans (hcourse.trans hclose)).trans (ih hcs hrest)

/-- A node is evaluated by evaluating one of its boxes. -/
theorem Course.exists_dispatch (h : Course settings x l) {site : Site} (hy : y ∈ l)
    (ht : y.task = .node site) : x = y ∨ ∃ z ∈ l, z.Needs settings [y] := by
  refine h.ascend (P := fun w => w = y) (fun z hz w _ hn hw => .inr ⟨z, hz, hw ▸ hn⟩) ?_ hy rfl
  rintro z w w' hn - (rfl | rfl)
  · cases hn
    cases ht
  · cases hn
    cases ht

/-- What is remembered of a node at the end of a stage comes from an evaluation of the node. -/
theorem StageRun.exists_dispatch (h : StageRun settings g table s xs s')
    (hl : Courses settings xs l) {key : BoxKey} {v : Value Local}
    (hm : s'.remembered? key = some v) :
    ∃ y ∈ l, ∃ w ∈ l, ∃ site, w.task = .node site ∧ site.key.place = key.place ∧
      y.task = .box site.key ∧ y.value = w.value := by
  by_contra hnone
  have hno : ∀ w ∈ l, ∀ site, w.task = .node site → site.key.place ≠ key.place := by
    intro w hw site ht hp
    obtain ⟨x, -, l', hsub, hc, hmem, htop, -⟩ := h.succession.exists_course hl hw
    rcases hc.exists_dispatch hmem ht with rfl | ⟨y, hy, hn⟩
    · rw [ht] at htop
      cases htop
    · refine hnone ⟨y, hsub hy, w, hw, site, ht, hp, ?_⟩
      cases hn with
      | dispatched _ hs =>
        cases ht
        exact ⟨by rw [State.key_of_site? hs], rfl⟩
      | _ => cases ht
  have hsame := (h.succession.sameAt_of_unvisited hl hno).memory key rfl
  rw [hm, State.remembered?, h.memory] at hsame
  cases hsame

end

/-! ### Filling a slot -/

/-- The value in a type, the neutral one where it cannot be cast. -/
def Value.convertedTo {ρ : Type} (type : ValueType) (v : Value ρ) : Value ρ :=
  (v.cast type).toOption.getD (.zero type)

section

variable {settings : Settings} {key : BoxKey} {s s' : State} {v : Value Local}
  {l : List Evaluation} {type : ValueType}

theorem Course.of_castTo {w : Value Local}
    (h : Course settings ⟨.recipe key (.castTo type w), s, v, s'⟩ l) :
    v = w.convertedTo type := by
  unfold Value.convertedTo
  cases hc : w.cast type with
  | ok u =>
    have hrecipe : Recipe.castTo type w = .done u := by
      unfold Recipe.castTo
      rw [hc]
    rw [hrecipe] at h
    exact h.of_done.1
  | error e =>
    have hrecipe : Recipe.castTo type w = .report (.ofTypeMismatch e) (.done (.zero type)) := by
      unfold Recipe.castTo
      rw [hc]
    rw [hrecipe] at h
    obtain ⟨l', -, h'⟩ := h.of_effect rfl
    exact h'.of_done.1

/-- What is fed from an input box is the value of the box that feeds it, or the given one. -/
theorem Course.of_feed {box : BoxId} {default : Value Local}
    (h : Course settings ⟨.recipe key (.feed box type default), s, v, s'⟩ l) :
    (s.producer? (key.sibling box) = none ∧ v = default.convertedTo type) ∨
      ∃ producer, s.producer? (key.sibling box) = some producer ∧
        ∃ y ∈ l, y.task = .box producer ∧ v = y.value.convertedTo type := by
  cases h with
  | leaf h => cases h
  | unary h hy =>
    cases h with
    | unconnected hp => exact .inl ⟨hp, hy.of_castTo⟩
    | effect he => cases he
  | binary h hy hz =>
    cases h with
    | connected hp =>
      refine .inr ⟨_, hp, _, List.mem_cons_of_mem _ (List.mem_append_left _ hy.self_mem), rfl, ?_⟩
      exact hz.of_castTo

end

section

variable {settings : Settings} {g : Graph} {table : List Instance} {s s' : State}
  {xs l : List Evaluation}

theorem State.producer?_of_lt {key : BoxKey} (hp : s.instances <+: table)
    (hk : key.graph < s.instances.length) :
    s.producer? key = ({ instances := table } : State).producer? key := by
  obtain ⟨rest, rfl⟩ := hp
  unfold producer? box? instance?
  rw [List.getElem?_append_left hk]

/-- The box that feeds an input does not change in the course of a stage. -/
theorem StageRun.producer?_eq (h : StageRun settings g table s xs s') (hl : Courses settings xs l)
    {y : Evaluation} {key : BoxKey} {r : Recipe Local (Value Local)} (hy : y ∈ l)
    (ht : y.task = .recipe key r) (box : BoxId) :
    y.before.producer? (key.sibling box) =
      ({ instances := table } : State).producer? (key.sibling box) := by
  obtain ⟨hsound, hlocated, -, hends⟩ := h.succession.forall_mem hl y hy
  obtain ⟨x, -, l', -, hc, hmem, -⟩ := h.succession.exists_course hl hy
  obtain ⟨ly, hcy, -⟩ := hc.mem hmem
  rw [ht] at hlocated
  have hlineage := hsound.context.lineage_current hlocated.1
  have hcurrent : key.graph ∈ y.before.context.graphs := List.mem_of_mem_head? hlocated.1
  refine State.producer?_of_lt ?_ (hsound.tree.lineage_lt hlineage _ hcurrent)
  exact (hcy.runs.grows.instances.trans hends.instances).trans h.instances

/-- In a stage without problems, an input is fed the same value wherever it is asked for. -/
theorem StageRun.feed_eq (h : StageRun settings g table s xs s') (hl : Courses settings xs l)
    (hclean : s'.diagnostics = []) {key : BoxKey} {box : BoxId} {type : ValueType}
    {default : Value Local} {y z : Evaluation} (hy : y ∈ l) (hz : z ∈ l)
    (hty : y.task = .recipe key (.feed box type default))
    (htz : z.task = .recipe key (.feed box type default)) : y.value = z.value := by
  have hfed : ∀ {y : Evaluation}, y ∈ l → y.task = .recipe key (.feed box type default) →
      y.value = ((({ instances := table } : State).producer? (key.sibling box)).elim default
        fun producer => (s'.remembered? producer).getD default).convertedTo type := by
    intro y hy hty
    have hproducer := h.producer?_eq hl hy hty box
    obtain ⟨x, -, l', hsub, hc, hmem, -⟩ := h.succession.exists_course hl hy
    obtain ⟨ly, hcy, hsuby⟩ := hc.mem hmem
    obtain ⟨task, before, value, after⟩ := y
    obtain rfl : task = .recipe key (.feed box type default) := hty
    rw [← hproducer]
    rcases hcy.of_feed with ⟨hp, hv⟩ | ⟨producer, hp, w, hw, htw, hv⟩
    · rw [hp]
      exact hv
    · rw [hp]
      have hremembered := h.agree_of_clean hl hclean (hsub (hsuby hw)) htw
      simp only [Option.elim_some, hremembered, Option.getD_some]
      exact hv
  rw [hfed hy hty, hfed hz htz]

/-- Without problems in the vertex stage, a node that interpolates has the value with which its slot
is filled. -/
theorem StageRun.interpolated_eq (h : StageRun settings g table s xs s')
    (hl : Courses settings xs l) (hstage : s.stage = .vertex) (hclean : s'.diagnostics = [])
    {slot : Slot} (hi : Interpolates table slot.node) (hin : slot.input = slot.node.sibling 0)
    {y z : Evaluation} (hy : y ∈ l) (hty : y.task = .recipe slot.node slot.recipe) (hz : z ∈ l)
    (htz : z.task = .box slot.node) : y.value = z.value := by
  have hremembered := h.agree_of_clean hl hclean hz htz
  -- the node was evaluated, if not for this box evaluation then for an earlier one
  obtain ⟨b, hb, w, hw, site, htw, hplace, htb, hvalue⟩ := h.exists_dispatch hl hremembered
  have hholds := h.fed hl w hw
  rw [htw] at hholds
  obtain ⟨node, hnode, hkind⟩ := hi.node
  obtain ⟨hgraph, hnumber⟩ := Prod.mk.inj hplace
  have hsite : site.node.kind = .interpolateVsToPs := by
    have hsame := hholds.2.node?
    rw [hgraph, hnumber, hnode] at hsame
    exact Option.some.inj hsame ▸ hkind
  have hkey : site.key = slot.node :=
    (hholds.1.interpolates h.wellFormed hholds.2.node? hsite).eq_of_place hi hplace
  rw [hkey] at htb
  have hsame : z.value = w.value := by
    rw [← hvalue]
    exact Option.some.inj (hremembered.symm.trans (h.agree_of_clean hl hclean hb htb))
  rw [hsame]
  -- its recipe in the vertex stage is the one of the slot
  have hwstage := ((h.succession.stepwise (State.stepwise_stage settings) hl).2 w hw).1
  obtain ⟨x, -, l', hsub, hc, hmem, -⟩ := h.succession.exists_course hl hw
  obtain ⟨lw, hcw, hsubw⟩ := hc.mem hmem
  obtain ⟨task, before, value, after⟩ := w
  obtain rfl : task = .node site := htw
  obtain ⟨lr, rfl, hcr⟩ := hcw.of_plain (by simp [hsite]) (by simp [hsite])
  have hrecipe : (site.recipe settings.domain before.stage : Recipe Local _) = slot.recipe := by
    have hbefore : before.stage = .vertex := hwstage.trans hstage
    unfold Site.recipe Slot.recipe
    rw [hsite, hbefore, hin]
    rfl
  rw [hrecipe, hkey] at hcr
  have hr := hsub (hsubw (List.mem_cons_of_mem _ hcr.self_mem))
  have hfed := h.feed_eq hl hclean hy hr hty rfl
  exact hfed

end

theorem Generator.generate_diagnostics {gen : Generator} {m : Material}
    (hm : gen.generate.1 = .ok m) (h : gen.state.Idle gen.settings gen.material) :
    gen.generate.2.state.diagnostics = m.diagnostics := by
  obtain ⟨output, ho, -⟩ := generate_ok hm
  obtain ⟨s₁, s₂, pixel, vertex, hgen, -⟩ := generate_succession h ho
  rw [hgen] at hm ⊢
  obtain rfl := Except.ok.inj hm
  rfl

/-- If a material whose graphs were all built has no problems, each of its interpolants is what
evaluating the node of its slot gives, wherever that is done in the vertex stage. -/
theorem interpolants_as_evaluated (g : Graph) (domain : Domain) (resolver : Resolver)
    (config : Config) (m : Material) (hg : g.Built)
    (hf : ∀ f ∈ Engine.functions resolver, f.graph.Built)
    (hm : ((Generator.new g domain resolver).withConfig config).generate.1 = .ok m)
    (hclean : m.diagnostics = []) :
    let gen := (Generator.new g domain resolver).withConfig config
    (∃ l, Courses gen.settings (gen.evaluations .vertex) l) ∧
      ∀ l, Courses gen.settings (gen.evaluations .vertex) l →
        ∀ i slot, gen.generate.2.state.slots[i]? = some slot →
          ∀ z ∈ l, z.task = .box slot.node →
            m.vertex.outputs[3 + i]? = some ⟨s!"CustomVSToPS[{i}]", z.value⟩ := by
  intro gen
  have hidle : gen.state.Idle gen.settings gen.material :=
    (Generator.idle_after g domain resolver config []).2.2
  obtain ⟨-, hwritten⟩ := Generator.vertex_outputs hm hidle
  obtain ⟨s₁, s₂, -, -, hlast, hrun₁, hrun₂⟩ := Generator.generate_stageRuns hm hidle hg hf
  refine ⟨hrun₂.succession.courses, fun l hl i slot hi z hz ht => ?_⟩
  obtain ⟨l₁, hl₁⟩ := hrun₁.succession.courses
  have hagree := hrun₁.slotsAgree hl₁ rfl rfl
  have hslots : gen.generate.2.state.slots = s₁.slots :=
    (congrArg State.slots hlast).trans (hrun₂.succession.slots_of_vertex hl rfl).1
  have hproblems : s₂.diagnostics = [] := by
    have hdiagnostics := Generator.generate_diagnostics hm hidle
    rw [hlast] at hdiagnostics
    exact hdiagnostics.trans hclean
  obtain ⟨hinterpolates, hin, -⟩ := hagree.claimed slot (List.mem_of_getElem? (hslots ▸ hi))
  obtain ⟨y, hy, hty, -, hout⟩ := hwritten i slot hi
  rw [hrun₂.interpolated_eq hl rfl hproblems hinterpolates hin (hl.subset hy) hty hz ht] at hout
  exact hout

/-! ### A slot inside a function -/

/-- A function that interpolates its argument. -/
def smoothing : MaterialFunction where
  id := ⟨5⟩
  graph := Graph.build [.add .functionInput [], .add .interpolateVsToPs [], .add .functionOutput [],
    .connect 0 0 1 0, .connect 1 1 2 0]
  inputs := [1]
  outputs := [3]

/-- Both stages call the function on the same product. -/
def smoothed : Graph :=
  Graph.build [.add .materialOutput [], .add .materialFunction [.asset smoothing.id],
    .add .cameraVector [], .add .multiply [], .connect 2 0 3 0, .connect 2 0 3 1, .connect 3 2 1 0,
    .connect 1 16 0 0, .connect 1 16 0 11]

/-- The slot in the function has the value that the vertex stage reads there. -/
theorem smoothed_as_evaluated :
    let gen := (Generator.new smoothed .surface ⟨[⟨[.loaded smoothing]⟩]⟩).withConfig {}
    ∃ (m : Material) (l : List Evaluation) (z : Evaluation), gen.generate.1 = .ok m ∧
      m.diagnostics = [] ∧ Courses gen.settings (gen.evaluations .vertex) l ∧ z ∈ l ∧
      z.task = .box ⟨1, 1, 1⟩ ∧ gen.generate.2.state.slots.map (·.node) = [⟨1, 1, 1⟩] ∧
      m.vertex.outputs[3]? = some ⟨"CustomVSToPS[0]", z.value⟩ := by
  have hg : smoothed.Built := ⟨_, rfl⟩
  have hf : ∀ f ∈ Engine.functions ⟨[⟨[.loaded smoothing]⟩]⟩, f.graph.Built :=
    List.forall_mem_singleton.mpr ⟨_, rfl⟩
  have hmaterial : ((Generator.new smoothed .surface ⟨[⟨[.loaded smoothing]⟩]⟩).withConfig
      {}).generate.1.toOption.map (·.diagnostics) = some [] := by decide +kernel
  have hslots : ((Generator.new smoothed .surface ⟨[⟨[.loaded smoothing]⟩]⟩).withConfig
      {}).generate.2.state.slots.map (·.node) = [⟨1, 1, 1⟩] := by decide +kernel
  have hcomputed : ⟨1, 1, 1⟩ ∈ ((Generator.new smoothed .surface
      ⟨[⟨[.loaded smoothing]⟩]⟩).withConfig {}).generate.2.state.computed := by decide +kernel
  obtain ⟨m, hm, hclean⟩ := Generator.generate_ok_of_map hmaterial
  obtain ⟨⟨l, hl⟩, hall⟩ := interpolants_as_evaluated smoothed .surface
    ⟨[⟨[.loaded smoothing]⟩]⟩ {} m hg hf hm hclean
  obtain ⟨s₁, s₂, -, -, hlast, -, hrun⟩ := Generator.generate_stageRuns hm
    (Generator.idle_after smoothed .surface ⟨[⟨[.loaded smoothing]⟩]⟩ {} []).2.2 hg hf
  dsimp only at hall ⊢
  generalize ((Generator.new smoothed .surface ⟨[⟨[.loaded smoothing]⟩]⟩).withConfig
    {}).generate.2.state = last at hall hlast hrun hslots hcomputed ⊢
  have hbox : ∃ z ∈ l, z.task = .box ⟨1, 1, 1⟩ := by
    refine hrun.box_of_computed hl ?_
    rw [hlast] at hcomputed
    exact hcomputed
  obtain ⟨z, hz, ht⟩ := hbox
  obtain ⟨slot, hslot, hnode⟩ : ∃ slot, last.slots[0]? = some slot ∧ slot.node = ⟨1, 1, 1⟩ := by
    have hfirst := congrArg (·[0]?) hslots
    simpa using hfirst
  exact ⟨m, l, z, hm, hclean, hl, hz, ht, hslots, hall l hl 0 slot hslot z hz (hnode ▸ ht)⟩

end ShaderGraph
