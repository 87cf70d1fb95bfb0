import ShaderGraph.Proofs.CustomBlock

/-! What becomes of the values of a node in the course of a stage. As long as boxes are asked for
that other boxes read, each box is computed once, its value is remembered from then on, and custom
code is evaluated once for all its outputs. An output that nothing reads may be asked for too, if no
other output of the node was computed before. -/

namespace ShaderGraph

open CustomCode

/-! ### Outputs of custom code -/

namespace CallTree

/-- An output box of custom code that is not blank. -/
def CustomOutput (table : List Instance) (key : BoxKey) : Prop :=
  ∃ node text i, node? table key.graph key.node = some node ∧ node.IsCustom text ∧
    output? key.box = some i

/-- The node of a site and its graph are those of the table. -/
def Holds (table : List Instance) (site : Site) : Prop :=
  ∃ origin, table[site.key.graph]? = some ⟨site.graph, origin⟩ ∧
    site.graph.node? site.key.node = some site.node

variable {table : List Instance} {site : Site} {key : BoxKey} {s : State}

theorem WellFormed.of_prefix {table' : List Instance} (hw : WellFormed table')
    (hp : table <+: table') : WellFormed table :=
  fun inst hi => hw inst (hp.subset hi)

theorem Holds.node? (h : Holds table site) :
    node? table site.key.graph site.key.node = some site.node := by
  obtain ⟨origin, hi, hn⟩ := h
  exact Option.bind_eq_some_iff.mpr ⟨_, hi, hn⟩

theorem holds_of_site? (hp : s.instances <+: table) (h : s.site? key = some site) :
    Holds table site := by
  obtain ⟨inst, node, hi, hn, rfl⟩ := State.site?_some h
  exact ⟨inst.origin, getElem?_mono hp hi, hn⟩

theorem Holds.feeds_iff (hw : WellFormed table) (h : Holds table site) (k : Nat) :
    Feeds table (site.key.sibling (outputBox k)) ↔ site.isRead k = true := by
  obtain ⟨origin, hi, -⟩ := h
  have hgraph := hw _ (List.mem_of_getElem? hi)
  refine Iff.trans ⟨?_, fun hf => ⟨_, hi, hf⟩⟩ hgraph.hasConsumers_iff.symm
  rintro ⟨inst, hi', hf⟩
  obtain rfl := Option.some.inj (hi.symm.trans hi')
  exact hf

theorem Holds.customOutput_iff (h : Holds table site) :
    CustomOutput table site.key ↔
      ∃ text i, site.node.IsCustom text ∧ output? site.box = some i := by
  constructor
  · rintro ⟨node, text, i, hn, hc, hi⟩
    obtain rfl := Option.some.inj (h.node?.symm.trans hn)
    exact ⟨text, i, hc, hi⟩
  · rintro ⟨text, i, hc, hi⟩
    exact ⟨site.node, text, i, h.node?, hc, hi⟩

/-- The outputs of a node are its boxes with the numbers of outputs. -/
theorem CustomOutput.eq_sibling (h : CustomOutput table key) (hp : key.place = site.key.place) :
    ∃ k < outputCount, key = site.key.sibling (outputBox k) := by
  obtain ⟨-, -, k, -, -, hk⟩ := h
  obtain ⟨hlt, hbox⟩ := output?_some hk
  exact ⟨k, hlt, BoxKey.eq_of_place hp hbox.symm⟩

theorem CustomOutput.sibling (h : CustomOutput table key) {k : Nat} (hk : k < outputCount) :
    CustomOutput table (key.sibling (outputBox k)) := by
  obtain ⟨node, text, -, hn, hc, -⟩ := h
  exact ⟨node, text, k, hn, hc, output?_outputBox hk⟩

/-- A box that feeds others is an output of its node. -/
theorem Feeds.mem_outputBoxes {node : Node} (hf : Feeds table key) (hw : WellFormed table)
    (hn : node? table key.graph key.node = some node) : key.box ∈ node.kind.outputBoxes := by
  obtain ⟨inst, hi, hfeeds⟩ := hf
  have hgraph := hw _ (List.mem_of_getElem? hi)
  obtain ⟨node', b, hnode, hb, hd⟩ := hgraph.output_of_feeds hfeeds
  have hsame : node? table key.graph key.node = some node' :=
    Option.bind_eq_some_iff.mpr ⟨inst, hi, hnode⟩
  obtain rfl := Option.some.inj (hsame.symm.trans hn)
  have hdecl := hgraph.map_decl_box? (List.mem_of_getElem? hnode) key.box
  rw [hb] at hdecl
  exact NodeKind.mem_outputBoxes hdecl.symm hd

theorem Feeds.customOutput {node : Node} {text : String} (hf : Feeds table key)
    (hw : WellFormed table) (hn : node? table key.graph key.node = some node)
    (hc : node.IsCustom text) : CustomOutput table key := by
  have hall : NodeKind.customCode.outputBoxes.all (fun box => (output? box).isSome) = true := by
    decide
  have hmem := hf.mem_outputBoxes hw hn
  rw [hc.kind] at hmem
  obtain ⟨i, hi⟩ := Option.isSome_iff_exists.mp (List.all_eq_true.mp hall _ hmem)
  exact ⟨node, text, i, hn, hc, hi⟩

/-- All outputs of custom code exist. -/
theorem isSome_box?_output (hw : WellFormed s.instances) (hs : s.site? site.key = some site)
    (hk : site.node.kind = .customCode) {k : Nat} (hlt : k < outputCount) :
    (s.box? (site.key.sibling (outputBox k))).isSome := by
  have hdecl : (List.range outputCount).all (fun k =>
      (NodeKind.customCode.boxDecl? (outputBox k)).isSome) = true := by decide
  obtain ⟨origin, hi, hn⟩ := holds_of_site? (List.prefix_refl _) hs
  have hbox := (hw _ (List.mem_of_getElem? hi)).map_decl_box? (List.mem_of_getElem? hn)
    (outputBox k)
  have hnode : CallTree.node? s.instances (site.key.sibling (outputBox k)).graph
      (site.key.sibling (outputBox k)).node = some site.node := (State.node?_of_site? hs :)
  rw [State.box?_eq, hnode, Option.bind_some]
  have hsome := List.all_eq_true.mp hdecl k (List.mem_range.mpr hlt)
  rw [← hk, ← hbox, Option.isSome_map] at hsome
  exact hsome

end CallTree

open CallTree

/-! ### Settled nodes -/

namespace State

/-- What is remembered of a node that is not under way is all that was computed of it, and custom
code was evaluated once for all its outputs. -/
structure Settled (table : List Instance) (p : Nat × Nat) (s : State) : Prop where
  remembered : ∀ key ∈ s.computedAt p, (s.remembered? key).isSome
  nodup : (s.computedAt p).Nodup
  single : ∀ key ∈ s.computedAt p, ∀ key' ∈ s.computedAt p, CustomOutput table key →
    CustomOutput table key' → key = key'
  /-- All outputs that are read are remembered together, and no other one but the one that was
  computed. -/
  shared : ∀ key ∈ s.computedAt p, CustomOutput table key → ∀ key', key'.place = p →
    CustomOutput table key' → Feeds table key' → (s.remembered? key').isSome
  unread : ∀ key ∈ s.computedAt p, CustomOutput table key → ∀ key', key'.place = p →
    CustomOutput table key' → ¬Feeds table key' → key' ≠ key → s.remembered? key' = none
  /-- Before that, none is. -/
  untouched : ∀ key, key.place = p → CustomOutput table key → (s.remembered? key).isSome →
    ∃ key' ∈ s.computedAt p, CustomOutput table key'

/-- The box exists and may be asked for: if it is an output of custom code, another box reads it or
no other output of the node was computed. -/
structure Admits (table : List Instance) (s : State) (key : BoxKey) : Prop where
  box : (s.box? key).isSome
  output : CustomOutput table key → Feeds table key ∨
    ∀ key' ∈ s.computedAt key.place, CustomOutput table key' → key' = key

variable {table : List Instance} {p : Nat × Nat} {s s' : State} {key : BoxKey}

theorem Settled.of_sameAt (h : s.Settled table p) (hs : SameAt p s s') : s'.Settled table p where
  remembered key hk := by
    rw [hs.computed] at hk
    rw [hs.memory key (mem_computedAt.mp hk).2]
    exact h.remembered key hk
  nodup := by
    rw [hs.computed]
    exact h.nodup
  single := by
    rw [hs.computed]
    exact h.single
  shared := by
    rw [hs.computed]
    intro key hk hc key' hp hc' hf
    rw [hs.memory key' hp]
    exact h.shared key hk hc key' hp hc' hf
  unread := by
    rw [hs.computed]
    intro key hk hc key' hp hc' hf hne
    rw [hs.memory key' hp]
    exact h.unread key hk hc key' hp hc' hf hne
  untouched key hp hc hm := by
    rw [hs.computed]
    rw [hs.memory key hp] at hm
    exact h.untouched key hp hc hm

/-- At the beginning of a stage nothing is computed or remembered. -/
theorem settled_of_nil (hm : s.memory = []) (hc : s.computed = []) : s.Settled table p := by
  have hnone : s.computedAt p = [] := by rw [computedAt, hc]; rfl
  refine ⟨?_, ?_, ?_, ?_, ?_, fun key _ _ hk => ?_⟩
  · simp [hnone]
  · simp [hnone]
  · simp [hnone]
  · simp [hnone]
  · simp [hnone]
  · simp [remembered?, hm] at hk

theorem box?_mono {b : Box} (hp : s.instances <+: s'.instances) (h : s.box? key = some b) :
    s'.box? key = some b := by
  rw [box?_eq] at h ⊢
  obtain ⟨node, hn, hb⟩ := Option.bind_eq_some_iff.mp h
  rw [node?_mono hp hn]
  exact hb

theorem isSome_box?_mono (hp : s.instances <+: s'.instances) (h : (s.box? key).isSome) :
    (s'.box? key).isSome := by
  obtain ⟨b, hb⟩ := Option.isSome_iff_exists.mp h
  rw [box?_mono hp hb]
  rfl

/-- A box that feeds another one may be asked for. -/
theorem admits_of_feeds (hw : WellFormed table) (hp : s.instances <+: table)
    (hf : Feeds s.instances key) : s.Admits table key := by
  obtain ⟨_, b, -, hb, -⟩ := output_of_feeds (hw.of_prefix hp) hf
  refine ⟨?_, fun _ => .inl (hf.mono hp)⟩
  rw [hb]
  rfl

end State

/-! ### Passages -/

/-- The block of a node is written during the evaluations `l`: `w` evaluates the node, with the
course `lw`, and `y` is where the block is written. -/
structure WrittenBy (settings : Settings) (table : List Instance) (p : Nat × Nat)
    (l : List Evaluation) (s' : State) (w : Evaluation) (lw : List Evaluation) (site : Site)
    (text : String) (y : Evaluation) (outputs : List (Option (Value Local))) : Prop where
  course : Course settings w lw
  subset : lw ⊆ l
  custom : w.Customizes site text lw y outputs
  place : site.key.place = p
  holds : Holds table site
  only : blocksAt p l = [y]
  remembered : ∀ k < outputCount, ∀ v, outputs[k]? = some (some v) →
    s'.remembered? (site.key.sibling (outputBox k)) = some v

/-- The custom code of a node is evaluated during the evaluations `l`, and not before. -/
def Written (settings : Settings) (table : List Instance) (p : Nat × Nat) (s : State)
    (l : List Evaluation) (s' : State) : Prop :=
  (∀ key ∈ s.computedAt p, ¬CustomOutput table key) ∧
    (∃ key ∈ s'.computedAt p, CustomOutput table key) ∧
    ∃ w lw site text y outputs, WrittenBy settings table p l s' w lw site text y outputs

/-- What the evaluations `l`, from one state to another, do to a node that is not under way. -/
structure Passage (settings : Settings) (table : List Instance) (p : Nat × Nat) (s : State)
    (l : List Evaluation) (s' : State) : Prop where
  settled : s'.Settled table p
  kept : ∀ key v, key.place = p → s.remembered? key = some v → s'.remembered? key = some v
  computed : s.computedAt p ⊆ s'.computedAt p
  /-- The value of a box is remembered, unless the box was asked for while its node was under
  way. -/
  agree : ∀ y ∈ l, ∀ key, y.task = .box key → key.place = p → p ∉ y.before.active →
    s'.remembered? key = some y.value
  /-- Either the outputs of custom code are left alone, or its block is written, once. -/
  blocks : (blocksAt p l = [] ∧
    ∀ key ∈ s'.computedAt p, CustomOutput table key → key ∈ s.computedAt p) ∨
    Written settings table p s l s'

namespace Passage

variable {settings : Settings} {table : List Instance} {p : Nat × Nat} {s s' s'' : State}
  {x : Evaluation} {l l' : List Evaluation}

theorem nil (hset : s.Settled table p) (h : State.SameAt p s s') :
    Passage settings table p s [] s' where
  settled := hset.of_sameAt h
  kept key v hp hm := (h.memory key hp).trans hm
  computed := h.computed ▸ List.Subset.refl _
  agree := by simp
  blocks := .inl ⟨rfl, fun key hk _ => h.computed ▸ hk⟩

theorem append (h : Passage settings table p s l s') (h' : Passage settings table p s' l' s'') :
    Passage settings table p s (l ++ l') s'' where
  settled := h'.settled
  kept key v hp hm := h'.kept key v hp (h.kept key v hp hm)
  computed := List.Subset.trans h.computed h'.computed
  agree y hy key ht hp ha := by
    rcases List.mem_append.mp hy with hy | hy
    · exact h'.kept key y.value hp (h.agree y hy key ht hp ha)
    · exact h'.agree y hy key ht hp ha
  blocks := by
    rcases h.blocks with ⟨hb, hold⟩ | ⟨hnone, ⟨key₀, hkey₀, hc₀⟩, w, lw, site, text, y, outputs, hw⟩
    · rcases h'.blocks with ⟨hb', hold'⟩ | ⟨hnone', hsome', w, lw, site, text, y, outputs, hw⟩
      · refine .inl ⟨?_, fun key hk hc => hold key (hold' key hk hc) hc⟩
        rw [blocksAt_append, hb, hb', List.append_nil]
      · refine .inr ⟨fun key hk => hnone' key (h.computed hk), hsome', w, lw, site, text, y,
          outputs, { hw with subset := ?_, only := ?_ }⟩
        · exact List.subset_append_of_subset_right _ hw.subset
        · rw [blocksAt_append, hb, hw.only, List.nil_append]
    · rcases h'.blocks with ⟨hb', hold'⟩ | ⟨hnone', -⟩
      · refine .inr ⟨hnone, ⟨key₀, h'.computed hkey₀, hc₀⟩, w, lw, site, text, y, outputs,
          { hw with subset := ?_, only := ?_, remembered := ?_ }⟩
        · exact List.subset_append_of_subset_left _ hw.subset
        · rw [blocksAt_append, hb', hw.only, List.append_nil]
        · exact fun k hk v hv => h'.kept _ v hw.place (hw.remembered k hk v hv)
      · exact absurd hc₀ (hnone' key₀ hkey₀)

/-- An evaluation that leaves the node alone itself, ahead of those that it is made of. -/
theorem cons (h : Passage settings table p s l s') (hs : x.task.Spares p)
    (hx : ∀ key, x.task = .box key → key.place = p → p ∉ x.before.active →
      s'.remembered? key = some x.value) :
    Passage settings table p s (x :: l) s' where
  settled := h.settled
  kept := h.kept
  computed := h.computed
  agree y hy key ht hp ha := by
    rcases List.mem_cons.mp hy with rfl | hy
    · exact hx key ht hp ha
    · exact h.agree y hy key ht hp ha
  blocks := by
    have hcons := blocksAt_cons_of_spares hs l
    rcases h.blocks with ⟨hb, hold⟩ | ⟨hnone, hsome, w, lw, site, text, y, outputs, hw⟩
    · exact .inl ⟨hcons.trans hb, hold⟩
    · exact .inr ⟨hnone, hsome, w, lw, site, text, y, outputs,
        { hw with subset := List.subset_cons_of_subset _ hw.subset, only := hcons.trans hw.only }⟩

end Passage

/-! ### One evaluation of a node -/

namespace State

variable {table : List Instance} {p : Nat × Nat} {s s' : State} {site : Site} {key : BoxKey}

theorem computedAt_start (s : State) (site : Site) :
    (s.start site).computedAt site.key.place = site.key :: s.computedAt site.key.place := by
  rw [computedAt, computed_start, List.filter_cons_of_pos (by simp)]
  rfl

theorem computedAt_finish (s : State) (key : BoxKey) (v : Value Local) (p : Nat × Nat) :
    (s.finish key v).computedAt p = s.computedAt p := by
  rw [computedAt, computedAt, (sameLog_finish s key v).computed]

/-- What is not remembered was not computed. -/
theorem Settled.not_mem (h : s.Settled table p) (hm : s.remembered? key = none) :
    key ∉ s.computedAt p := by
  intro hmem
  have hsome := h.remembered key hmem
  rw [hm] at hsome
  cases hsome

/-- One box more is computed, which is no output of custom code. -/
theorem Settled.add (h : s.Settled table p) (hm : s.remembered? key = none)
    (hc : ¬CustomOutput table key) (hcomp : s'.computedAt p = key :: s.computedAt p)
    (hself : (s'.remembered? key).isSome)
    (hother : ∀ key', key'.place = p → key' ≠ key → s'.remembered? key' = s.remembered? key') :
    s'.Settled table p := by
  -- outputs of custom code were computed before
  have hold : ∀ key' ∈ s'.computedAt p, CustomOutput table key' → key' ∈ s.computedAt p := by
    intro key' hk hc'
    rw [hcomp] at hk
    rcases List.mem_cons.mp hk with rfl | hk
    · exact absurd hc' hc
    · exact hk
  have hne : ∀ key', CustomOutput table key' → key' ≠ key := fun _ hc' he => hc (he ▸ hc')
  constructor
  case remembered =>
    intro key' hk
    rw [hcomp] at hk
    rcases List.mem_cons.mp hk with rfl | hk
    · exact hself
    · by_cases he : key' = key
      · exact he ▸ hself
      · rw [hother key' (mem_computedAt.mp hk).2 he]
        exact h.remembered key' hk
  case nodup =>
    rw [hcomp]
    exact List.nodup_cons.mpr ⟨h.not_mem hm, h.nodup⟩
  case single =>
    intro key₁ hk₁ key₂ hk₂ hc₁ hc₂
    exact h.single key₁ (hold key₁ hk₁ hc₁) key₂ (hold key₂ hk₂ hc₂) hc₁ hc₂
  case shared =>
    intro key₁ hk₁ hc₁ key₂ hp₂ hc₂ hf
    rw [hother key₂ hp₂ (hne key₂ hc₂)]
    exact h.shared key₁ (hold key₁ hk₁ hc₁) hc₁ key₂ hp₂ hc₂ hf
  case unread =>
    intro key₁ hk₁ hc₁ key₂ hp₂ hc₂ hf hne₂
    rw [hother key₂ hp₂ (hne key₂ hc₂)]
    exact h.unread key₁ (hold key₁ hk₁ hc₁) hc₁ key₂ hp₂ hc₂ hf hne₂
  case untouched =>
    intro key₁ hp₁ hc₁ hm₁
    rw [hother key₁ hp₁ (hne key₁ hc₁)] at hm₁
    obtain ⟨key₂, hk₂, hc₂⟩ := h.untouched key₁ hp₁ hc₁ hm₁
    refine ⟨key₂, ?_, hc₂⟩
    rw [hcomp]
    exact List.mem_cons_of_mem _ hk₂

/-- Custom code is evaluated, for the first time. -/
theorem Settled.addOutput (h : s.Settled table p) (hm : s.remembered? key = none)
    (hc : CustomOutput table key) (hnone : ∀ key' ∈ s.computedAt p, ¬CustomOutput table key')
    (hcomp : s'.computedAt p = key :: s.computedAt p) (hself : (s'.remembered? key).isSome)
    (hother : ∀ key', key'.place = p → ¬CustomOutput table key' →
      s'.remembered? key' = s.remembered? key')
    (hfed : ∀ key', key'.place = p → CustomOutput table key' → Feeds table key' →
      (s'.remembered? key').isSome)
    (hunfed : ∀ key', key'.place = p → CustomOutput table key' → ¬Feeds table key' → key' ≠ key →
      s'.remembered? key' = none) :
    s'.Settled table p := by
  have honly : ∀ key' ∈ s'.computedAt p, CustomOutput table key' → key' = key := by
    intro key' hk hc'
    rw [hcomp] at hk
    rcases List.mem_cons.mp hk with rfl | hk
    · rfl
    · exact absurd hc' (hnone key' hk)
  constructor
  case remembered =>
    intro key' hk
    rw [hcomp] at hk
    rcases List.mem_cons.mp hk with rfl | hk
    · exact hself
    · rw [hother key' (mem_computedAt.mp hk).2 (hnone key' hk)]
      exact h.remembered key' hk
  case nodup =>
    rw [hcomp]
    exact List.nodup_cons.mpr ⟨h.not_mem hm, h.nodup⟩
  case single =>
    intro key₁ hk₁ key₂ hk₂ hc₁ hc₂
    rw [honly key₁ hk₁ hc₁, honly key₂ hk₂ hc₂]
  case shared => exact fun _ _ _ key' hp' hc' hf => hfed key' hp' hc' hf
  case unread =>
    intro key₁ hk₁ hc₁ key' hp' hc' hf hne
    rw [honly key₁ hk₁ hc₁] at hne
    exact hunfed key' hp' hc' hf hne
  case untouched =>
    refine fun _ _ _ _ => ⟨key, ?_, hc⟩
    rw [hcomp]
    exact List.mem_cons_self

/-- If an output of custom code may be asked for and is not remembered, none was computed. -/
theorem Settled.none_computed (h : s.Settled table key.place) (hadm : s.Admits table key)
    (hm : s.remembered? key = none) (hc : CustomOutput table key) :
    ∀ key' ∈ s.computedAt key.place, ¬CustomOutput table key' := by
  intro key' hk hc'
  rcases hadm.output hc with hf | hsame
  · have hsome := h.shared key' hk hc' key rfl hc hf
    rw [hm] at hsome
    cases hsome
  · exact h.not_mem hm (hsame key' hk hc' ▸ hk)

end State

section

variable {settings : Settings} {table : List Instance} {s s' : State} {site : Site}
  {v : Value Local} {l : List Evaluation}

/-- A box is computed that is no output of custom code. -/
theorem passage_of_spared (hm : s.remembered? site.key = none)
    (hb : (s.box? site.key).isSome) (hset : s.Settled table site.key.place)
    (hc : ¬CustomOutput table site.key) (hholds : Holds table site)
    (h : Course settings ⟨.node site, s.start site, v, s'⟩ l) :
    Passage settings table site.key.place s
      (⟨.box site.key, s, v, s'.finish site.key v⟩ :: l) (s'.finish site.key v) := by
  have hspares : (Task.node site).Spares site.key.place := by
    refine .inr fun domain stage => Site.recipe_simple (fun text ht => ?_) domain stage
    by_contra hne
    obtain ⟨i, hi⟩ := Option.ne_none_iff_exists'.mp hne
    exact hc (hholds.customOutput_iff.mpr ⟨text, i, ht, hi⟩)
  have hactive : site.key.place ∈ (s.start site).active := List.mem_cons_self
  obtain ⟨hsame, hblocks⟩ := h.frame hactive hspares
  have hsame : State.SameAt site.key.place (s.start site) s' := hsame
  have hgrows : (s.start site).Grows s' := h.runs.grows
  have hcomp : (s'.finish site.key v).computedAt site.key.place =
      site.key :: s.computedAt site.key.place := by
    rw [State.computedAt_finish, hsame.computed, State.computedAt_start]
  have hself : (s'.finish site.key v).remembered? site.key = some v := by
    have hnone : s'.remembered? site.key = none := (hsame.memory site.key rfl).trans hm
    rw [State.remembered?_finish_self (State.isSome_box?_mono hgrows.instances hb), hnone]
    rfl
  have hother : ∀ key, key.place = site.key.place → key ≠ site.key →
      (s'.finish site.key v).remembered? key = s.remembered? key := by
    intro key hp hne
    rw [State.remembered?_finish_of_ne s' hne]
    exact hsame.memory key hp
  constructor
  case settled => exact hset.add hm hc hcomp (by rw [hself]; rfl) hother
  case kept =>
    intro key w hp hk
    rw [hother key hp (fun he => by rw [he, hm] at hk; cases hk)]
    exact hk
  case computed =>
    rw [hcomp]
    exact List.subset_cons_self _ _
  case agree =>
    intro y hy key ht hp ha
    rcases List.mem_cons.mp hy with rfl | hy
    · cases ht
      exact hself
    · exact absurd ((h.during y hy).active.subset hactive) ha
  case blocks =>
    have hbox : (Task.box site.key).Spares site.key.place := trivial
    refine .inl ⟨(blocksAt_cons_of_spares hbox l).trans hblocks, fun key hk hck => ?_⟩
    rw [hcomp] at hk
    rcases List.mem_cons.mp hk with rfl | hk
    · exact absurd hck hc
    · exact hk

/-- An output of custom code is computed. -/
theorem passage_of_custom (hw : WellFormed table) (hs : s.site? site.key = some site)
    (ht : (s'.finish site.key v).instances <+: table) (hm : s.remembered? site.key = none)
    (hset : s.Settled table site.key.place) (hadm : s.Admits table site.key)
    (hc : CustomOutput table site.key) (hholds : Holds table site)
    (h : Course settings ⟨.node site, s.start site, v, s'⟩ l) :
    Passage settings table site.key.place s
      (⟨.box site.key, s, v, s'.finish site.key v⟩ :: l) (s'.finish site.key v) := by
  obtain ⟨text, i, hcustom, hi⟩ := hholds.customOutput_iff.mp hc
  have hactive : site.key.place ∈ (s.start site).active := List.mem_cons_self
  obtain ⟨y, outputs, s₁, hy, hv, hsame, hgrows, hs'⟩ := h.of_custom hcustom hi hactive
  have hnone := hset.none_computed hadm hm hc
  have hprefix : s.instances <+: table := by
    have hstart : s.instances <+: s'.instances := h.runs.grows.instances
    exact hstart.trans ((State.extends_finish s' site.key v).instances.trans ht)
  have hbox : ∀ k < outputCount, (s₁.box? (site.key.sibling (outputBox k))).isSome := fun k hk =>
    State.isSome_box?_mono hgrows.instances
      (isSome_box?_output (hw.of_prefix hprefix) hs hcustom.kind hk)
  -- what the recipe has set
  have hmem : ∀ k < outputCount,
      s'.remembered? (site.key.sibling (outputBox k)) = outputs[k]?.join := by
    intro k hk
    have hset := @State.remembered?_rememberAll site.key s₁ outputs 0 k hbox
      (by rw [hy.length, Nat.zero_add]) (by rw [hy.length]; exact hk)
    rw [Nat.zero_add] at hset
    rw [hs', hset]
  have hother' : ∀ key, key.place = site.key.place → ¬CustomOutput table key →
      s'.remembered? key = s.remembered? key := by
    intro key hp hck
    rw [hs', State.remembered?_rememberAll_of_ne]
    · exact hsame.memory key hp
    · rintro j hj rfl
      rw [Nat.zero_add] at hck
      exact hck (hc.sibling (hy.length ▸ hj))
  have hcomp : (s'.finish site.key v).computedAt site.key.place =
      site.key :: s.computedAt site.key.place := by
    obtain ⟨memory, hall⟩ := State.rememberAll_eq site.key outputs 0 s₁
    rw [State.computedAt_finish, hs', hall, ← State.computedAt_start]
    exact hsame.computed
  -- the box that was asked for
  have hkey : site.key = site.key.sibling (outputBox i) := by
    rw [(output?_some hi).2]
    rfl
  have hnode : (site.node.box? site.box).isSome := by
    have hb := hadm.box
    rwa [State.box?_eq, State.node?_of_site? hs] at hb
  have hself : (s'.finish site.key v).remembered? site.key = some v := by
    rw [State.remembered?_finish_self (State.isSome_box?_mono h.runs.grows.instances hadm.box),
      congrArg s'.remembered? hkey, hmem i (output?_some hi).1, hv, Recipe.outputValue,
      if_pos hnode]
    cases outputs[i]?.join <;> rfl
  have hother : ∀ key, key.place = site.key.place → ¬CustomOutput table key →
      (s'.finish site.key v).remembered? key = s.remembered? key := by
    intro key hp hck
    have hne : key ≠ site.key := fun he => hck (he ▸ hc)
    rw [State.remembered?_finish_of_ne s' hne]
    exact hother' key hp hck
  have hremembered : ∀ k < outputCount, ∀ w, outputs[k]? = some (some w) →
      (s'.finish site.key v).remembered? (site.key.sibling (outputBox k)) = some w := by
    intro k hk w hw
    refine State.remembered?_finish_of_some ?_ site.key v
    rw [hmem k hk, hw]
    rfl
  constructor
  case settled =>
    refine hset.addOutput hm hc hnone hcomp (by rw [hself]; rfl) hother (fun key hp hck hf => ?_)
      fun key hp hck hf hne => ?_
    · obtain ⟨k, hk, rfl⟩ := hck.eq_sibling hp
      obtain ⟨n, hn, -⟩ := hy.fed hk ((hholds.feeds_iff hw k).mp hf)
      rw [hremembered k hk _ hn]
      rfl
    · obtain ⟨k, hk, rfl⟩ := hck.eq_sibling hp
      have hunread : site.isRead k = false :=
        Bool.eq_false_iff.mpr fun hr => hf ((hholds.feeds_iff hw k).mpr hr)
      rw [State.remembered?_finish_of_ne s' hne, hmem k hk, hy.unfed hk hunread]
      rfl
  case kept =>
    intro key w hp hk
    rw [hother key hp]
    · exact hk
    · intro hck
      obtain ⟨key', hk', hc'⟩ := hset.untouched key hp hck (by rw [hk]; rfl)
      exact hnone key' hk' hc'
  case computed =>
    rw [hcomp]
    exact List.subset_cons_self _ _
  case agree =>
    intro z hz key ht hp ha
    rcases List.mem_cons.mp hz with rfl | hz
    · cases ht
      exact hself
    · exact absurd ((h.during z hz).active.subset hactive) ha
  case blocks =>
    have htask : (Task.box site.key).Spares site.key.place := trivial
    refine .inr ⟨hnone, ⟨site.key, ?_, hc⟩, _, l, site, text, y, outputs, h,
      List.subset_cons_self _ _, hy, rfl, hholds, ?_, hremembered⟩
    · rw [hcomp]
      exact List.mem_cons_self
    · exact (blocksAt_cons_of_spares htask l).trans hy.only

end

/-! ### All that is evaluated -/

namespace Evaluation

variable {settings : Settings} {table : List Instance} {p : Nat × Nat} {x y z : Evaluation}

theorem Needs.not_active (h : x.Needs settings [y])
    (hd : ∀ site, y.task = .node site → site.key.place ≠ p) (ha : p ∉ x.before.active) :
    p ∉ y.before.active := by
  cases h with
  | dispatched =>
    rw [State.start, List.mem_cons, not_or]
    exact ⟨(hd _ rfl).symm, ha⟩
  | @called _ s _ _ _ _ _ _ _ _ _ _ hi =>
    rw [(s.grows_made hi).active]
    exact ha
  | effect he =>
    rw [(State.grows_effect _ he).active]
    exact ha
  | _ => exact ha

/-- A box that is needed feeds another one. -/
theorem Needs.feeds (h : x.Needs settings [y]) (hw : WellFormed y.before.instances) {key : BoxKey}
    (hk : y.task = .box key) : Feeds y.before.instances key := by
  cases h with
  | called _ _ _ _ _ hp =>
    cases hk
    exact State.feeds_of_producer? hw hp
  | passed _ _ _ _ hp =>
    cases hk
    exact State.feeds_of_producer? hw hp
  | _ => cases hk

theorem Needs.feeds_two (h : x.Needs settings [y, z]) (hw : WellFormed y.before.instances) :
    (∀ key, y.task = .box key → Feeds y.before.instances key) ∧ ∀ key, z.task ≠ .box key := by
  cases h with
  | connected hp =>
    refine ⟨fun key hk => ?_, fun _ => Task.noConfusion⟩
    cases hk
    exact State.feeds_of_producer? hw hp

/-- A box whose node is not under way is remembered, if no other evaluation is needed. -/
theorem Needs.value_remembered (h : x.Needs settings []) {key : BoxKey} (hk : x.task = .box key)
    (hb : (x.before.box? key).isSome) (ha : key.place ∉ x.before.active) :
    x.after.remembered? key = some x.value := by
  cases h with
  | remembered hm =>
    cases hk
    exact hm
  | @absent _ s _ hs =>
    cases hk
    obtain ⟨b, hb⟩ := Option.isSome_iff_exists.mp hb
    obtain ⟨inst, hi, hbox⟩ := Option.bind_eq_some_iff.mp hb
    obtain ⟨node, hn, -⟩ := Option.bind_eq_some_iff.mp hbox
    simp [State.site?, hi, hn] at hs
  | reentered _ _ hact =>
    cases hk
    exact absurd hact ha
  | _ => cases hk

end Evaluation

section

variable {settings : Settings} {table : List Instance} {p : Nat × Nat} {x : Evaluation}
  {l : List Evaluation}

/-- What an evaluation does to a node that is not under way. -/
theorem Course.passage (h : Course settings x l) (hw : WellFormed table)
    (ht : x.after.instances <+: table) (hs : x.task.Spares p) (ha : p ∉ x.before.active)
    (hset : x.before.Settled table p)
    (hadm : ∀ key, x.task = .box key → key.place = p → x.before.Admits table key) :
    Passage settings table p x.before l x.after := by
  induction h with
  | leaf h =>
    refine (Passage.nil hset (h.sameAt p)).cons hs fun key hk hp hact => ?_
    exact h.value_remembered hk (hadm key hk hp).box (hp ▸ hact)
  | @unary x y l h hy ih =>
    have hty : y.after.instances <+: table := h.during.ends.instances.trans ht
    by_cases hd : ∃ site, y.task = .node site ∧ site.key.place = p
    · -- the node itself is evaluated
      obtain ⟨site, hsite, rfl⟩ := hd
      cases h with
      | @dispatched key s site' v s' hm hsite' hact =>
        cases hsite
        obtain rfl := State.key_of_site? hsite'
        have hholds : Holds table site := by
          have hstart : s.instances <+: s'.instances := hy.runs.grows.instances
          exact holds_of_site? (hstart.trans hty) hsite'
        by_cases hc : CustomOutput table site.key
        · exact passage_of_custom hw hsite' ht hm hset (hadm _ rfl rfl) hc hholds hy
        · exact passage_of_spared hm (hadm _ rfl rfl).box hset hc hholds hy
      | _ => cases hsite
    · have hd : ∀ site, y.task = .node site → site.key.place ≠ p :=
        fun site hsite hp => hd ⟨site, hsite, hp⟩
      obtain ⟨hopen, hclose, hspares⟩ := h.sameAt_unary hs hd
      have hbefore : y.before.instances <+: table := hy.runs.grows.instances.trans hty
      have hinner := ih hty hspares (h.not_active hd ha) (hset.of_sameAt hopen)
        fun key hk _ => State.admits_of_feeds hw hbefore (h.feeds (hw.of_prefix hbefore) hk)
      have hall := (Passage.nil hset hopen).append
        (hinner.append (Passage.nil hinner.settled hclose))
      rw [List.nil_append, List.append_nil] at hall
      refine hall.cons hs fun key hk hp _ => ?_
      cases h with
      | dispatched hm hsite =>
        cases hk
        exact absurd hp (State.key_of_site? hsite ▸ hd _ rfl)
      | _ => cases hk
  | @binary x y z l l' h hy hz ihy ihz =>
    obtain ⟨hb, hm, he, hsy, hsz⟩ := h.binary hs
    have htz : z.after.instances <+: table := he ▸ ht
    have hty : y.after.instances <+: table := hm ▸ hz.runs.grows.instances.trans htz
    have hbefore : y.before.instances <+: table := hy.runs.grows.instances.trans hty
    obtain ⟨hfeeds, hnobox⟩ := h.feeds_two (hw.of_prefix hbefore)
    have hfirst := ihy hty hsy (hb ▸ ha) (hb ▸ hset)
      fun key hk _ => State.admits_of_feeds hw hbefore (hfeeds key hk)
    have hactive : p ∉ z.before.active := by
      rw [hm, hy.runs.grows.active, hb]
      exact ha
    have hsecond := ihz htz hsz hactive (hm ▸ hfirst.settled)
      fun key hk _ => absurd hk (hnobox key)
    rw [hb] at hfirst
    rw [hm, ← he] at hsecond
    refine (hfirst.append hsecond).cons hs fun key hk _ _ => ?_
    cases h
    cases hk

/-- What a run does to a node. -/
theorem Succession.passage {g : Graph} {s s' : State} {xs : List Evaluation}
    (h : Succession settings g s xs s') (hl : Courses settings xs l) (hw : WellFormed table)
    (ht : s'.instances <+: table) (hset : s.Settled table p)
    (hadm : ∀ x ∈ xs, ∀ key, x.task = .box key → key.place = p → x.before.Admits table key) :
    Passage settings table p s l s' := by
  induction h generalizing l with
  | nil =>
    cases hl
    exact .nil hset (.refl p _)
  | @cons s x xs s' hx hxs ih =>
    cases hl with
    | cons hc hcs =>
      obtain ⟨c, hbefore⟩ := hx.before
      have hopen : State.SameAt p s x.before := by
        rw [hbefore]
        exact .of_eq rfl rfl
      have hclose : State.SameAt p x.after (s.resume x) := .of_eq rfl rfl
      have hactive : p ∉ x.before.active := by
        rw [hbefore, hx.idle.active]
        exact List.not_mem_nil
      have htx : x.after.instances <+: table := hxs.keeps.instances.trans ht
      have hfirst := hc.passage hw htx (hx.top.spares p) hactive (hset.of_sameAt hopen)
        (hadm x List.mem_cons_self)
      have hone := (Passage.nil hset hopen).append
        (hfirst.append (Passage.nil hfirst.settled hclose))
      rw [List.nil_append, List.append_nil] at hone
      exact hone.append (ih hcs ht hone.settled fun y hy => hadm y (List.mem_cons_of_mem x hy))

end

/-! ### Stages -/

/-- The run of a stage: it begins with nothing computed or remembered, asks for no box directly, and
all graphs that take part in it are well formed. -/
structure StageRun (settings : Settings) (g : Graph) (table : List Instance) (s : State)
    (xs : List Evaluation) (s' : State) : Prop where
  succession : Succession settings g s xs s'
  memory : s.memory = []
  computed : s.computed = []
  noBoxes : ∀ x ∈ xs, ∀ key, x.task ≠ .box key
  wellFormed : WellFormed table
  instances : s'.instances <+: table

theorem StageRun.passage {settings : Settings} {g : Graph} {table : List Instance} {s s' : State}
    {xs l : List Evaluation} (h : StageRun settings g table s xs s') (hl : Courses settings xs l)
    (p : Nat × Nat) : Passage settings table p s l s' :=
  h.succession.passage hl h.wellFormed h.instances (State.settled_of_nil h.memory h.computed)
    fun x hx key hk _ => absurd hk (h.noBoxes x hx key)

namespace Generator

open Evaluation

/-- A stage evaluates the recipes of its parameters and interpolants. -/
theorem evaluations_ne_box (gen : Generator) (stage : Stage) :
    ∀ x ∈ gen.evaluations stage, ∀ key, x.task ≠ .box key := by
  intro x hx key
  unfold evaluations at hx
  cases ho : gen.material.findKind? .materialOutput with
  | none =>
    rw [ho] at hx
    cases hx
  | some output =>
    rw [ho] at hx
    rcases List.mem_append.mp hx with hx | hx
    · obtain ⟨step, hstep, s, rfl⟩ := mem_sequence hx
      obtain ⟨p, -, rfl⟩ := List.mem_map.mp hstep
      exact Task.noConfusion
    · split at hx
      · obtain ⟨step, hstep, s, rfl⟩ := mem_sequence hx
        obtain ⟨slot, -, rfl⟩ := List.mem_map.mp hstep
        exact Task.noConfusion
      · cases hx

/-- The two stages of a material whose graphs were all built. -/
theorem generate_stageRuns {gen : Generator} {m : Material} (hm : gen.generate.1 = .ok m)
    (h : gen.state.Idle gen.settings gen.material) (hg : gen.material.Built)
    (hf : ∀ f ∈ Engine.functions gen.settings.resolver, f.graph.Built) :
    ∃ s₁ s₂, m.pixel.code = s₁.writer.source ∧ m.vertex.code = s₂.writer.source ∧
      gen.generate.2.state =
        s₂.takeWriter.2.record (.finished s₂.slots.length s₂.diagnostics.length) ∧
      StageRun gen.settings gen.material gen.generate.2.state.instances
        (gen.state.beginStage .pixel) (gen.evaluations .pixel) s₁ ∧
      StageRun gen.settings gen.material gen.generate.2.state.instances
        (s₁.takeWriter.2.beginStage .vertex) (gen.evaluations .vertex) s₂ := by
  obtain ⟨output, ho, -⟩ := generate_ok hm
  obtain ⟨s₁, s₂, pixel, vertex, hgen, hrun₁, hrun₂⟩ := generate_succession h ho
  rw [hgen] at hm
  obtain rfl := Except.ok.inj hm
  have hlast : gen.generate.2.state =
      s₂.takeWriter.2.record (.finished s₂.slots.length s₂.diagnostics.length) := by rw [hgen]
  have hinstances : gen.generate.2.state.instances = s₂.instances := by rw [hlast]; rfl
  have hwf : WellFormed s₂.instances :=
    hrun₂.idle.sound.tree.wellFormed hg.wellFormed fun f hmem => (hf f hmem).wellFormed
  refine ⟨s₁, s₂, rfl, rfl, hlast, ?_, ?_⟩
  · rw [hinstances]
    exact ⟨hrun₁, rfl, rfl, gen.evaluations_ne_box .pixel, hwf, hrun₂.keeps.instances⟩
  · rw [hinstances]
    exact ⟨hrun₂, rfl, rfl, gen.evaluations_ne_box .vertex, hwf, List.prefix_refl _⟩

end Generator

end ShaderGraph
