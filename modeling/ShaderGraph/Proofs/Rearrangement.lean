import ShaderGraph.Proofs.Parallel

/-! A material does not depend on the places of the nodes in its graph, nor on nodes that its output
does not depend on. -/

namespace ShaderGraph

open CallTree

/-! ### Rearranged graphs -/

/-- The node with its connections renumbered. -/
def Node.renumber (place : Nat → Nat) (n : Node) : Node :=
  { n with boxes := n.boxes.map fun b =>
      { b with connection := b.connection.map fun c =>
          { c with node := .ofNat (place c.node.toNat) } } }

namespace Graph

/-- The nodes of `g` stand in given places of `g'`, their connections renumbered. Further nodes of
`g'` are no material outputs, and read no output of a custom code node of `g`. -/
structure Rearranges (place : Nat → Nat) (g g' : Graph) : Prop where
  injective : ∀ i j, i < g.nodes.length → j < g.nodes.length → place i = place j → i = j
  kept : ∀ i node, g.node? i = some node →
    ∃ node', g'.node? (place i) = some node' ∧ node.Moved place node'
  added : ∀ j node', g'.node? j = some node' → (∀ i < g.nodes.length, place i ≠ j) →
    node'.kind ≠ .materialOutput ∧
      ∀ i node, g.node? i = some node → node.kind = .customCode →
        ∀ k < CustomCode.outputCount, ¬node'.Reads (place i) (CustomCode.outputBox k)

theorem lt_of_node? {g : Graph} {i : Nat} {node : Node} (h : g.node? i = some node) :
    i < g.nodes.length :=
  (List.getElem?_eq_some_iff.mp h).1

/-- The only node of a kind is the first one. -/
theorem findKind?_eq {g : Graph} {kind : NodeKind} {i : Nat} (hi : g.kind? i = some kind)
    (hone : ∀ j, g.kind? j = some kind → j = i) : g.findKind? kind = some i := by
  obtain ⟨node, hn, hk⟩ := Option.map_eq_some_iff.mp hi
  obtain ⟨hlt, hget⟩ := List.getElem?_eq_some_iff.mp hn
  refine List.findIdx?_eq_some_iff_getElem.mpr ⟨hlt, by simp [hget, hk], fun j hj hkind => ?_⟩
  have hji := hone j (Option.map_eq_some_iff.mpr
    ⟨_, List.getElem?_eq_getElem (hj.trans hlt), by simpa using hkind⟩)
  omega

end Graph

theorem Node.moved_renumber {place : Nat → Nat} {n : Node}
    (h : ∀ b ∈ n.boxes, ∀ c ∈ b.connection, place c.node.toNat < UInt64.size) :
    n.Moved place (n.renumber place) := by
  refine ⟨rfl, rfl, rfl, ?_⟩
  rw [Node.renumber, List.forall₂_map_right_iff, List.forall₂_same]
  intro b hb
  refine ⟨rfl, ?_⟩
  have hsmall := h b hb
  dsimp only
  generalize b.connection = c at hsmall
  cases c with
  | none => exact .none
  | some c => exact .some ⟨UInt64.toNat_ofNat_of_lt (hsmall c rfl), rfl⟩

/-- What a node reads stands in its place. -/
theorem Node.Moved.reads_iff {place : Nat → Nat} {n n' : Node} (h : n.Moved place n')
    (hp : Function.Injective place) (i : Nat) (id : BoxId) :
    n'.Reads (place i) id ↔ n.Reads i id := by
  have hboxes := h.boxes
  unfold Node.Reads
  generalize n.boxes = l, n'.boxes = l' at hboxes
  induction hboxes with
  | nil => simp
  | @cons b b' _ _ hb _ ih =>
    simp only [List.mem_cons, exists_eq_or_imp]
    refine or_congr ?_ ih
    have hconnection := hb.connection
    unfold Box.Reads
    generalize b.connection = c, b'.connection = c' at hconnection
    cases hconnection with
    | none => simp
    | some hc => simp [hc.node, hc.box, hp.eq_iff]

/-- Only the places of the nodes that feed the node matter. -/
theorem Node.Moved.congr {place place' : Nat → Nat} {n n' : Node} (h : n.Moved place n')
    (hc : ∀ b ∈ n.boxes, ∀ c, b.connection = some c → place' c.node.toNat = place c.node.toNat) :
    n.Moved place' n' := by
  refine { h with boxes := ?_ }
  have hboxes := h.boxes
  generalize n.boxes = l, n'.boxes = l' at hboxes hc
  induction hboxes with
  | nil => exact .nil
  | @cons b b' _ _ hb _ ih =>
    refine .cons ⟨hb.decl, ?_⟩ (ih fun b hb => hc b (List.mem_cons_of_mem _ hb))
    have hconnection := hb.connection
    have hplace := hc b List.mem_cons_self
    generalize b.connection = c, b'.connection = c' at hconnection hplace
    cases hconnection with
    | none => exact .none
    | some hmoved => exact .some ⟨hmoved.node.trans (hplace _ rfl).symm, hmoved.box⟩

namespace Graph.Rearranges

variable {place : Nat → Nat} {g g' : Graph}

/-- Places for all numbers, also for those that are no places of nodes. -/
def extend (place : Nat → Nat) (g g' : Graph) (n : Nat) : Nat :=
  if n < g.nodes.length then place n else g'.nodes.length + n

theorem extend_of_lt {n : Nat} (h : n < g.nodes.length) : extend place g g' n = place n :=
  if_pos h

theorem place_lt (h : g.Rearranges place g') {n : Nat} (hn : n < g.nodes.length) :
    place n < g'.nodes.length := by
  obtain ⟨node', hn', -⟩ := h.kept n _ (List.getElem?_eq_getElem hn)
  exact lt_of_node? hn'

theorem injective_extend (h : g.Rearranges place g') :
    Function.Injective (extend place g g') := by
  intro i j hij
  unfold extend at hij
  split at hij <;> split at hij
  next hi hj => exact h.injective i j hi hj hij
  next hi hj =>
    have hlt := h.place_lt hi
    omega
  next hi hj =>
    have hlt := h.place_lt hj
    omega
  next => omega

theorem embeds (hg : g.WellFormed) (h : g.Rearranges place g') :
    g.Embeds (extend place g g') g' := by
  have hmoved : ∀ n node, g.node? n = some node →
      ∃ node', g'.node? (extend place g g' n) = some node' ∧
        node.Moved (extend place g g') node' := by
    intro n node hn
    obtain ⟨node', hn', hm⟩ := h.kept n node hn
    rw [extend_of_lt (lt_of_node? hn)]
    refine ⟨node', hn', hm.congr fun b hb c hc => ?_⟩
    -- a built graph is fed by nodes of its own
    obtain ⟨-, kind, -, hkind, -⟩ := hg.fed node (List.mem_of_getElem? hn) b hb c hc
    obtain ⟨producer, hproducer, -⟩ := Option.map_eq_some_iff.mp hkind
    exact extend_of_lt (lt_of_node? hproducer)
  refine ⟨h.injective_extend, fun n => ?_, fun n node hn hk k hlt => ?_⟩
  · cases hn : g.node? n with
    | some node =>
      obtain ⟨node', hn', hm⟩ := hmoved n node hn
      rw [hn']
      exact .some hm
    | none =>
      have hlen : ¬n < g.nodes.length := Nat.not_lt.mpr (List.getElem?_eq_none_iff.mp hn)
      have hnone : g'.node? (extend place g g' n) = none := by
        rw [extend, if_neg hlen]
        exact List.getElem?_eq_none_iff.mpr (Nat.le_add_right _ _)
      rw [hnone]
      exact .none
  · rw [Bool.eq_iff_iff, hasConsumers_iff_reads, hasConsumers_iff_reads]
    constructor
    · rintro ⟨node', hmem, hreads⟩
      obtain ⟨j, hj⟩ := List.mem_iff_getElem?.mp hmem
      by_cases hplace : ∃ i < g.nodes.length, place i = j
      · obtain ⟨i, hi, rfl⟩ := hplace
        obtain ⟨node₁, hn₁, hm⟩ := hmoved i _ (List.getElem?_eq_getElem hi)
        rw [extend_of_lt hi] at hn₁
        obtain rfl := Option.some.inj (hj.symm.trans hn₁)
        exact ⟨_, List.getElem_mem hi, (hm.reads_iff h.injective_extend n _).mp hreads⟩
      · rw [extend_of_lt (lt_of_node? hn)] at hreads
        have hnew := (h.added j node' hj fun i hi he => hplace ⟨i, hi, he⟩).2
        exact absurd hreads (hnew n node hn hk k hlt)
    · rintro ⟨node₁, hmem, hreads⟩
      obtain ⟨i, hi⟩ := List.mem_iff_getElem?.mp hmem
      obtain ⟨node', hn', hm⟩ := hmoved i node₁ hi
      exact ⟨node', List.mem_of_getElem? hn', (hm.reads_iff h.injective_extend n _).mpr hreads⟩

/-- The only material output stays the only one. -/
theorem findKind?_eq (h : g.Rearranges place g') {output : Nat}
    (ho : g.kind? output = some .materialOutput)
    (hone : ∀ i, g.kind? i = some .materialOutput → i = output) :
    g'.findKind? .materialOutput = some (place output) := by
  obtain ⟨node, hn, hk⟩ := Option.map_eq_some_iff.mp ho
  obtain ⟨node', hn', hm⟩ := h.kept output node hn
  refine Graph.findKind?_eq (Option.map_eq_some_iff.mpr ⟨node', hn', hm.kind.trans hk⟩)
    fun j hj => ?_
  obtain ⟨node₁, hn₁, hk₁⟩ := Option.map_eq_some_iff.mp hj
  by_cases hplace : ∃ i < g.nodes.length, place i = j
  · obtain ⟨i, hi, rfl⟩ := hplace
    obtain ⟨node₂, hn₂, hm₂⟩ := h.kept i _ (List.getElem?_eq_getElem hi)
    obtain rfl := Option.some.inj (hn₂.symm.trans hn₁)
    have hkind : g.kind? i = some .materialOutput :=
      Option.map_eq_some_iff.mpr ⟨_, List.getElem?_eq_getElem hi, hm₂.kind.symm.trans hk₁⟩
    rw [hone i hkind]
  · exact absurd hk₁ (h.added j node₁ hn₁ fun i hi he => hplace ⟨i, hi, he⟩).1

end Graph.Rearranges

/-! ### Whole materials -/

section

variable {settings : Settings} {library : Library} {place : Nat → Nat} {g g' : Graph}
  {s u : State}

namespace State.IdlePair

theorem beginStage (h : s.IdlePair settings place g g' True u) (stage : Stage) :
    (s.beginStage stage).IdlePair settings place g g' True (u.beginStage stage) where
  idle := h.idle.beginStage stage
  idle' := h.idle'.beginStage stage
  parallel :=
    { h.parallel with
      active := .nil
      memory := fun _ _ _ => rfl
      known := fun _ hsome => by cases hsome
      matched := fun _ hsome => by cases hsome
      stage := rfl
      notes := fun hn => { h.parallel.notes hn with } }
  quiet := .inl trivial

theorem takeWriter (h : s.IdlePair settings place g g' True u) :
    s.takeWriter.2.IdlePair settings place g g' True u.takeWriter.2 :=
  ⟨h.idle.takeWriter, h.idle'.takeWriter, h.parallel.write {}, h.quiet⟩

end State.IdlePair

namespace Generator

variable {e e' : Evaluator}

/-- Interpolants of corresponding slots. -/
theorem interpolant_pair (hr : settings.resolver = ⟨[library]⟩)
    (he : Engine.Follows settings g [] e) (he' : Engine.Follows settings g' [] e')
    (h : s.IdlePair settings place g g' True u) {slot slot' : Slot} (hslot : slot ∈ s.slots)
    (hslot' : slot' ∈ u.slots) (ht : SlotTwins place s.instances u.instances slot slot') (i : Nat) :
    (interpolant e' slot' i u).1 = (interpolant e slot i s).1 ∧
      (interpolant e slot i s).2.IdlePair settings place g g' True (interpolant e' slot' i u).2 ∧
      s.Grows (interpolant e slot i s).2 ∧ u.Grows (interpolant e' slot' i u).2 := by
  obtain ⟨s', hrun, hend⟩ := interpolant_runs he h.idle hslot i
  obtain ⟨u', hrun', hend'⟩ := interpolant_runs he' h.idle' hslot' i
  obtain ⟨hvalid, hcur, -⟩ := h.idle.sound.slots slot hslot
  obtain ⟨hvalid', hcur', -⟩ := h.idle'.sound.slots slot' hslot'
  obtain ⟨hidle, hgrows⟩ := interpolant_idle h.idle hslot hrun
  obtain ⟨hidle', hgrows'⟩ := interpolant_idle h.idle' hslot' hrun'
  have hrecipe : (slot'.recipe : Recipe Local _) = slot.recipe := by
    rw [Slot.recipe, Slot.recipe, ht.input]
  have hlocated : (Task.recipe slot'.node slot.recipe).Located
      { u with context := slot'.context } := ⟨hcur', slot.recipe_callFree⟩
  obtain ⟨u₁, hu₁, hp⟩ := hrun.parallel hr (h.idle.sound.withContext hvalid)
    (h.idle'.sound.withContext hvalid') ⟨hcur, slot.recipe_callFree⟩ hlocated (.inl trivial)
    (.recipe ht.node _) (h.parallel.withContext ht.context)
  rw [hrecipe] at hrun'
  obtain ⟨hvalue, rfl⟩ := hrun'.unique hu₁
  rw [hend, hend']
  refine ⟨congrArg (StageOutput.mk _) hvalue, ⟨hidle, hidle', ?_, .inl trivial⟩, hgrows, hgrows'⟩
  exact hp.withContext (h.parallel.context.mono hgrows.instances hgrows'.instances)

theorem interpolants_pair (hr : settings.resolver = ⟨[library]⟩)
    (he : Engine.Follows settings g [] e) (he' : Engine.Follows settings g' [] e')
    (h : s.IdlePair settings place g g' True u) :
    (interpolants e' u.slots u).1 = (interpolants e s.slots s).1 ∧
      (interpolants e s.slots s).2.IdlePair settings place g g' True
        (interpolants e' u.slots u).2 := by
  refine interpolants_pair_of (fun slot slot' i s' u' ht hslot hslot' hs hu h' => ?_)
    (h.parallel.notes trivial).slots h
  exact interpolant_pair hr he he' h' hslot hslot' (ht.mono hs.instances hu.instances) i

theorem lockstep_pair (hr : settings.resolver = ⟨[library]⟩)
    (he : Engine.Follows settings g [] e) (he' : Engine.Follows settings g' [] e')
    (output : Nat) : Lockstep e e' output (place output)
      fun s u => s.IdlePair settings place g g' True u where
  onParameter p _ _ h := parameter_pair hr he he' h output p
  onInterpolants _ _ h := interpolants_pair hr he he' h
  beginStage stage _ _ h := h.beginStage stage
  takeWriter _ _ h := h.takeWriter
  writer _ _ h := h.parallel.writer

/-- Corresponding materials are the same. -/
theorem stages_pair (hr : settings.resolver = ⟨[library]⟩)
    (he : Engine.Follows settings g [] e) (he' : Engine.Follows settings g' [] e')
    (h : s.IdlePair settings place g g' True u) (output : Nat) :
    (stages e' (place output) u).1 = (stages e output s).1 := by
  obtain ⟨pixel, vertex, s', u', hend, hm, hm'⟩ := (lockstep_pair hr he he' output).stages h
  have hnotes := hend.parallel.notes trivial
  rw [hm, hm', hnotes.textures, hnotes.usage, hnotes.diagnostics, hnotes.slots.length_eq]

theorem generate_pair {gen gen' : Generator} {output : Nat}
    (hr : gen.settings.resolver = ⟨[library]⟩) (hs : gen'.settings = gen.settings)
    (h : gen.state.IdlePair gen.settings place gen.material gen'.material True gen'.state)
    (ho : gen.material.findKind? .materialOutput = some output)
    (ho' : gen'.material.findKind? .materialOutput = some (place output)) :
    ∃ m, gen.generate.1 = .ok m ∧ gen'.generate.1 = .ok m := by
  have hsame := stages_pair hr gen.follows_evaluator (hs ▸ gen'.follows_evaluator) h output
  rw [generate_eq ho, generate_eq ho']
  exact ⟨_, rfl, congrArg Except.ok hsame⟩

end Generator

end

/-- The material of a built graph with one material output stays the same when the nodes are put in
other places and further nodes are added that are no material outputs and read no custom code. -/
theorem generate_rearranged (g g' : Graph) (place : Nat → Nat) (domain : Domain) (library : Library)
    (config : Config) (hg : g.Built) (hone : ∃! output, g.kind? output = some .materialOutput)
    (h : g.Rearranges place g') :
    ∃ m, ((Generator.new g domain ⟨[library]⟩).withConfig config).generate.1 = .ok m ∧
      ((Generator.new g' domain ⟨[library]⟩).withConfig config).generate.1 = .ok m := by
  obtain ⟨output, ho, hone⟩ := hone
  obtain ⟨node, hn, -⟩ := Option.map_eq_some_iff.mp ho
  have hplace : Graph.Rearranges.extend place g g' output = place output :=
    Graph.Rearranges.extend_of_lt (Graph.lt_of_node? hn)
  have hfind' := h.findKind?_eq ho hone
  rw [← hplace] at hfind'
  let settings := ((Generator.new g domain ⟨[library]⟩).withConfig config).settings
  have hidle : (State.ofGraph g).Idle settings g := ⟨State.sound_ofGraph _ g, rfl, rfl⟩
  have hidle' : (State.ofGraph g').Idle settings g' := ⟨State.sound_ofGraph _ g', rfl, rfl⟩
  have hparallel := hidle'.parallel (h.embeds hg.wellFormed) rfl rfl
    fun _ : True => ⟨.nil, rfl, rfl, rfl, named_single g, named_single g'⟩
  exact Generator.generate_pair rfl rfl ⟨hidle, hidle', hparallel, .inl trivial⟩
    (Graph.findKind?_eq ho hone) hfind'

/-- The nodes of `customized` in other places, and one more node that reads the vector to the
camera. -/
def customizedElsewhere : Graph :=
  ⟨[(Node.ofKind 2 .customCode [.text "Output0 = Input0 * 2;"]).fed 0 ⟨3, 0⟩,
    (Node.ofKind 9 .abs []).fed 0 ⟨3, 0⟩,
    (Node.ofKind 1 .materialOutput []).fed 0 ⟨0, 8⟩,
    .ofKind 3 .cameraVector []]⟩

theorem built_customized : customized.Built :=
  ⟨[.add .materialOutput [], .add .customCode [.text "Output0 = Input0 * 2;"],
    .add .cameraVector [], .connect 1 8 0 0, .connect 2 0 1 0], by decide +kernel⟩

theorem rearranges_customized :
    customized.Rearranges (fun n => [2, 0, 3].getD n n) customizedElsewhere where
  injective := by
    have hall : ∀ i < 3, ∀ j < 3, ([2, 0, 3].getD i i : Nat) = [2, 0, 3].getD j j → i = j := by
      decide
    exact fun i j hi hj => hall i hi j hj
  kept := by
    have hall : ∀ i < 3, customizedElsewhere.node? ([2, 0, 3].getD i i) =
        (customized.node? i).map (Node.renumber fun n => [2, 0, 3].getD n n) := by
      decide +kernel
    have hsmall : ∀ node ∈ customized.nodes, ∀ b ∈ node.boxes, ∀ c ∈ b.connection,
        [2, 0, 3].getD c.node.toNat c.node.toNat < UInt64.size := by
      decide +kernel
    intro i node hn
    have hi := hall i (Graph.lt_of_node? hn)
    rw [hn] at hi
    exact ⟨_, hi, Node.moved_renumber (hsmall node (List.mem_of_getElem? hn))⟩
  added := by
    have hall : ∀ j < 4, ∀ node' ∈ customizedElsewhere.node? j,
        (∀ i < 3, ([2, 0, 3].getD i i : Nat) ≠ j) → node'.kind ≠ .materialOutput ∧
          ∀ i < 3, ∀ node ∈ customized.node? i, node.kind = .customCode →
            ∀ k < CustomCode.outputCount,
              ¬node'.Reads ([2, 0, 3].getD i i) (CustomCode.outputBox k) := by
      decide +kernel
    intro j node' hj hnew
    obtain ⟨hkind, hreads⟩ := hall j (Graph.lt_of_node? hj) node' hj hnew
    exact ⟨hkind, fun i node hn => hreads i (Graph.lt_of_node? hn) node hn⟩

theorem customized_rearranged :
    customized.Rearranges (fun n => [2, 0, 3].getD n n) customizedElsewhere ∧
      ∃ m, ((Generator.new customized .surface ⟨[{}]⟩).withConfig {}).generate.1 = .ok m ∧
        ((Generator.new customizedElsewhere .surface ⟨[{}]⟩).withConfig {}).generate.1 = .ok m := by
  have hone : ∃! output, customized.kind? output = some .materialOutput := by
    have hall : ∀ j < 3, customized.kind? j = some .materialOutput → j = 0 := by decide
    refine ⟨0, by decide, fun j hj => ?_⟩
    obtain ⟨node, hn, -⟩ := Option.map_eq_some_iff.mp hj
    exact hall j (Graph.lt_of_node? hn) hj
  exact ⟨rearranges_customized, generate_rearranged customized customizedElsewhere _ .surface {} {}
    built_customized hone rearranges_customized⟩

end ShaderGraph
