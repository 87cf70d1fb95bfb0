import ShaderGraph.Graph.Build
import ShaderGraph.Proofs.Invariant

/-! Graphs made by the building operations. Their nodes have the boxes of their kinds, and every
connection leads from an output box that exists to an input box. An evaluation of such graphs only
asks for boxes that feed others, and these have values. -/

namespace ShaderGraph

def Box.decl (b : Box) : BoxDecl := ⟨b.id, b.direction, b.type⟩

/-- The box is fed from a given box of a node in a given place. -/
def Box.Reads (b : Box) (i : Nat) (id : BoxId) : Prop :=
  ∃ c ∈ b.connection, c.node.toNat = i ∧ c.box = id

instance (b : Box) (i : Nat) (id : BoxId) : Decidable (b.Reads i id) :=
  inferInstanceAs (Decidable (∃ c ∈ b.connection, _))

def Node.Reads (n : Node) (i : Nat) (id : BoxId) : Prop := ∃ b ∈ n.boxes, b.Reads i id

instance (n : Node) (i : Nat) (id : BoxId) : Decidable (n.Reads i id) :=
  inferInstanceAs (Decidable (∃ b ∈ n.boxes, _))

/-- An operation of building a graph. -/
inductive BuildStep where
  | add (kind : NodeKind) (params : List Param)
  | addNode (id : NodeId) (kind : NodeKind) (params : List Param)
  | addNodeByType (id : NodeId) (type : NodeTypeId) (params : List Param)
  | connect (source : UInt64) (output : BoxId) (target : UInt64) (input : BoxId)

namespace Graph

def apply (g : Graph) : BuildStep → Except BuildError Graph
  | .add kind params => (g.add kind params).map (·.1)
  | .addNode id kind params => (g.addNode id kind params).map (·.1)
  | .addNodeByType id type params => (g.addNodeByType id type params).map (·.1)
  | .connect source output target input => g.connect source output target input

/-- An operation that fails leaves the graph as it is. -/
def build (steps : List BuildStep) (g : Graph := {}) : Graph :=
  steps.foldl (fun g step => (g.apply step).toOption.getD g) g

/-- The graph was made by building operations, from nothing. -/
def Built (g : Graph) : Prop := ∃ steps, build steps = g

def kind? (g : Graph) (i : Nat) : Option NodeKind := (g.node? i).map (·.kind)

theorem kind?_of_findKind? {g : Graph} {kind : NodeKind} {i : Nat}
    (h : g.findKind? kind = some i) : g.kind? i = some kind := by
  obtain ⟨hlt, hk, -⟩ := List.findIdx?_eq_some_iff_getElem.mp h
  simp only [kind?, node?, List.getElem?_eq_getElem hlt, Option.map_some, beq_iff_eq.mp hk]

/-- Some input box is fed from the given box. -/
def Feeds (g : Graph) (i : Nat) (id : BoxId) : Prop :=
  ∃ node ∈ g.nodes, ∃ b ∈ node.boxes, b.direction = .input ∧
    ∃ c, b.connection = some c ∧ c.node.toNat = i ∧ c.box = id

structure WellFormed (g : Graph) : Prop where
  /-- The boxes of a node are those of its kind. -/
  layout : ∀ node ∈ g.nodes, node.boxes.map Box.decl = node.kind.layout
  /-- Only input boxes are connected, and only to output boxes. -/
  fed : ∀ node ∈ g.nodes, ∀ b ∈ node.boxes, ∀ c, b.connection = some c → b.direction = .input ∧
    ∃ kind d, g.kind? c.node.toNat = some kind ∧ kind.boxDecl? c.box = some d ∧
      d.direction = .output

/-! ### Adding nodes -/

theorem wellFormed_empty : WellFormed {} := ⟨by simp, by simp⟩

theorem kind?_mono {nodes rest : List Node} {i : Nat} {kind : NodeKind}
    (h : kind? ⟨nodes⟩ i = some kind) : kind? ⟨nodes ++ rest⟩ i = some kind := by
  obtain ⟨node, hn, rfl⟩ := Option.map_eq_some_iff.mp h
  have hlt : i < nodes.length := (List.getElem?_eq_some_iff.mp hn).1
  refine Option.map_eq_some_iff.mpr ⟨node, ?_, rfl⟩
  rw [node?, List.getElem?_append_left hlt]
  exact hn

theorem map_decl_ofKind (id : NodeId) (kind : NodeKind) (params : List Param) :
    (Node.ofKind id kind params).boxes.map Box.decl = kind.layout := by
  simp [Node.ofKind, Function.comp_def, Box.decl]

theorem connection_ofKind {id : NodeId} {kind : NodeKind} {params : List Param} {b : Box}
    (hb : b ∈ (Node.ofKind id kind params).boxes) : b.connection = none := by
  obtain ⟨d, -, rfl⟩ := List.mem_map.mp hb
  rfl

theorem WellFormed.push {g : Graph} (h : g.WellFormed) (id : NodeId) (kind : NodeKind)
    (params : List Param) : (g.push (.ofKind id kind params)).1.WellFormed := by
  constructor
  case layout =>
    intro node hn
    rcases List.mem_append.mp hn with hn | hn
    · exact h.layout node hn
    · obtain rfl := List.mem_singleton.mp hn
      exact map_decl_ofKind id kind params
  case fed =>
    intro node hn b hb c hc
    rcases List.mem_append.mp hn with hn | hn
    · obtain ⟨hin, k, d, hk, hd⟩ := h.fed node hn b hb c hc
      exact ⟨hin, k, d, kind?_mono hk, hd⟩
    · obtain rfl := List.mem_singleton.mp hn
      simp [connection_ofKind hb] at hc

/-! ### Connecting boxes -/

theorem map_decl_connectBox (id : BoxId) (c : Connection) (boxes : List Box) :
    (connectBox id c boxes).map Box.decl = boxes.map Box.decl := by
  induction boxes with
  | nil => rfl
  | cons b boxes ih =>
    rw [connectBox]
    split
    · rfl
    · rw [List.map_cons, List.map_cons, ih]

/-- A box of the connected node is one from before, or the one that was connected. -/
theorem mem_connectBox {id : BoxId} {c : Connection} {boxes : List Box} {b : Box}
    (h : b ∈ connectBox id c boxes) :
    b ∈ boxes ∨
      ∃ b₀, boxes.find? (·.id == id) = some b₀ ∧ b = { b₀ with connection := some c } := by
  induction boxes with
  | nil => exact .inl h
  | cons b₁ boxes ih =>
    rw [connectBox] at h
    split at h
    next hid =>
      rcases List.mem_cons.mp h with rfl | h
      · exact .inr ⟨b₁, List.find?_cons_of_pos hid, rfl⟩
      · exact .inl (List.mem_cons_of_mem _ h)
    next hid =>
      rcases List.mem_cons.mp h with rfl | h
      · exact .inl List.mem_cons_self
      · rcases ih h with h | ⟨b₀, hb, rfl⟩
        · exact .inl (List.mem_cons_of_mem _ h)
        · have hskip : (b₁ :: boxes).find? (·.id == id) = boxes.find? (·.id == id) :=
            List.find?_cons_of_neg hid
          exact .inr ⟨b₀, hskip.trans hb, rfl⟩

/-- The boxes of a node are declared as in the layout of its kind. -/
theorem WellFormed.map_decl_box? {g : Graph} (h : g.WellFormed) {node : Node}
    (hn : node ∈ g.nodes) (id : BoxId) : (node.box? id).map Box.decl = node.kind.boxDecl? id := by
  rw [NodeKind.boxDecl?, ← h.layout node hn, List.find?_map]
  rfl

theorem checkOutput_ok {n : Node} {id : BoxId} (h : checkOutput n id = .ok ()) :
    ∃ b, n.box? id = some b ∧ b.direction = .output := by
  unfold checkOutput at h
  cases hb : n.box? id with
  | none => simp [hb] at h
  | some b =>
    simp only [hb, ne_eq, ite_not] at h
    split at h
    next hd => exact ⟨b, rfl, hd⟩
    next => cases h

theorem checkInput_ok {n : Node} {id : BoxId} (h : checkInput n id = .ok ()) :
    ∃ b, n.box? id = some b ∧ b.direction = .input ∧ b.connection = none := by
  unfold checkInput at h
  cases hb : n.box? id with
  | none => simp [hb] at h
  | some b =>
    simp only [hb, ne_eq, ite_not] at h
    split at h
    next hd =>
      split at h
      next => cases h
      next hc => exact ⟨b, rfl, hd, by simpa using hc⟩
    next => cases h

/-- What a successful connection has checked, and the graph that it gives. -/
theorem connect_ok {g g' : Graph} {source target : UInt64} {output input : BoxId}
    (h : g.connect source output target input = .ok g') :
    ∃ producer consumer b b', g.node? source.toNat = some producer ∧
      producer.box? output = some b ∧ b.direction = .output ∧
      g.node? target.toNat = some consumer ∧ consumer.box? input = some b' ∧
      b'.direction = .input ∧ b'.connection = none ∧
      g' = ⟨g.nodes.modify target.toNat fun n =>
        { n with boxes := connectBox input ⟨source, output⟩ n.boxes }⟩ := by
  unfold connect at h
  cases hp : g.node? source.toNat with
  | none => simp [hp] at h
  | some producer =>
    cases ho : checkOutput producer output with
    | error e => simp [hp, ho, bind, Except.bind] at h
    | ok =>
      cases hc : g.node? target.toNat with
      | none => simp [hp, ho, hc, bind, Except.bind] at h
      | some consumer =>
        cases hi : checkInput consumer input with
        | error e => simp [hp, ho, hc, hi, bind, Except.bind] at h
        | ok =>
          simp only [hp, ho, hc, hi, bind, Except.bind, pure, Except.pure, Except.ok.injEq] at h
          obtain ⟨b, hb, hd⟩ := checkOutput_ok ho
          obtain ⟨b', hb', hd', hfree⟩ := checkInput_ok hi
          exact ⟨producer, consumer, b, b', rfl, hb, hd, rfl, hb', hd', hfree, h.symm⟩

/-- Changing the boxes of a node leaves all kinds as they are. -/
theorem kind?_modify (nodes : List Node) (target i : Nat) (f : List Box → List Box) :
    kind? ⟨nodes.modify target fun n => { n with boxes := f n.boxes }⟩ i = kind? ⟨nodes⟩ i := by
  unfold kind? node?
  dsimp only
  rw [List.getElem?_modify]
  cases nodes[i]? with
  | none => rfl
  | some n =>
    by_cases ht : target = i
    · simp [ht]
    · simp [ht]

theorem WellFormed.connect {g g' : Graph} {source target : UInt64} {output input : BoxId}
    (h : g.WellFormed) (hc : g.connect source output target input = .ok g') : g'.WellFormed := by
  obtain ⟨producer, consumer, b₁, b₂, hp, hb₁, hd₁, hcons, hb₂, hd₂, -, rfl⟩ := connect_ok hc
  -- a node of the new graph is an old one, or the consumer with the connection
  have hnode : ∀ node ∈ g.nodes.modify target.toNat
      (fun n => { n with boxes := connectBox input ⟨source, output⟩ n.boxes }),
      node ∈ g.nodes ∨
        node = { consumer with boxes := connectBox input ⟨source, output⟩ consumer.boxes } := by
    intro node hmem
    obtain ⟨i, hi⟩ := List.mem_iff_getElem?.mp hmem
    rw [List.getElem?_modify] at hi
    obtain ⟨n, hn, rfl⟩ := Option.map_eq_some_iff.mp hi
    by_cases ht : target.toNat = i
    · subst ht
      obtain rfl : n = consumer := Option.some.inj (hn.symm.trans hcons)
      exact .inr (if_pos rfl)
    · rw [if_neg ht]
      exact .inl (List.mem_of_getElem? hn)
  have hmem : consumer ∈ g.nodes := List.mem_of_getElem? hcons
  constructor
  case layout =>
    intro node hn
    rcases hnode node hn with hn | rfl
    · exact h.layout node hn
    · rw [map_decl_connectBox]
      exact h.layout consumer hmem
  case fed =>
    intro node hn b hb c hconn
    have hold : ∀ node ∈ g.nodes, b ∈ node.boxes → _ := fun node hn hb => h.fed node hn b hb c hconn
    rw [kind?_modify g.nodes target.toNat c.node.toNat (connectBox input ⟨source, output⟩)]
    rcases hnode node hn with hn | rfl
    · exact hold node hn hb
    · rcases mem_connectBox hb with hb | ⟨b₀, hfind, rfl⟩
      · exact hold consumer hmem hb
      · obtain rfl : b₀ = b₂ := Option.some.inj (hfind.symm.trans hb₂)
        obtain rfl : (⟨source, output⟩ : Connection) = c := Option.some.inj hconn
        have hdecl := h.map_decl_box? (List.mem_of_getElem? hp) output
        rw [hb₁] at hdecl
        refine ⟨hd₂, producer.kind, b₁.decl, ?_, hdecl.symm, hd₁⟩
        rw [kind?, hp]
        rfl

/-! ### What an operation does -/

theorem foldl_max_le_iff {l : List Nat} {a m : Nat} :
    l.foldl max a ≤ m ↔ a ≤ m ∧ ∀ x ∈ l, x ≤ m := by
  induction l generalizing a with
  | nil => simp
  | cons x l ih => rw [List.foldl_cons, ih, Nat.max_le, List.forall_mem_cons, and_assoc]

theorem maxId_le_iff {g : Graph} {m : Nat} :
    g.maxId ≤ m ↔ ∀ node ∈ g.nodes, node.id.toNat ≤ m := by
  simp [maxId, foldl_max_le_iff]

/-- The number that is given next is free. -/
theorem id_ne_of_maxId_lt {g : Graph} (h : g.maxId < 4294967295) {node : Node}
    (hn : node ∈ g.nodes) : node.id ≠ UInt32.ofNat (g.maxId + 1) := by
  intro hid
  have hle : node.id.toNat ≤ g.maxId := maxId_le_iff.mp (Nat.le_refl _) node hn
  rw [hid, UInt32.toNat_ofNat_of_lt' (by simp only [UInt32.size]; omega)] at hle
  omega

theorem apply_addNode {g g' : Graph} {id : NodeId} {kind : NodeKind} {params : List Param}
    (h : (g.addNode id kind params).map (·.1) = .ok g') :
    (∀ node ∈ g.nodes, node.id ≠ id) ∧ g' = (g.push (.ofKind id kind params)).1 := by
  unfold addNode at h
  split at h
  next => cases h
  next hfree =>
    refine ⟨?_, (Except.ok.inj h).symm⟩
    simpa [find?] using hfree

/-- An operation that succeeds adds a node under a number that is free, or connects two boxes. -/
theorem apply_cases {g g' : Graph} {step : BuildStep} (h : g.apply step = .ok g') :
    (∃ id kind params, (∀ node ∈ g.nodes, node.id ≠ id) ∧
      (∀ source output target input, step ≠ .connect source output target input) ∧
      g' = (g.push (.ofKind id kind params)).1) ∨
    ∃ source output target input, step = .connect source output target input ∧
      g.connect source output target input = .ok g' := by
  cases step with
  | add kind params =>
    simp only [Graph.apply, Graph.add] at h
    split at h
    next hmax =>
      exact .inl ⟨_, kind, params, fun _ => id_ne_of_maxId_lt hmax, by simp, (Except.ok.inj h).symm⟩
    next => cases h
  | addNode id kind params =>
    obtain ⟨hfree, rfl⟩ := apply_addNode h
    exact .inl ⟨id, kind, params, hfree, by simp, rfl⟩
  | addNodeByType id type params =>
    simp only [Graph.apply, Graph.addNodeByType] at h
    cases hkind : NodeKind.ofTypeId? type with
    | none => simp [hkind, Except.map] at h
    | some kind =>
      rw [hkind] at h
      obtain ⟨hfree, rfl⟩ := apply_addNode h
      exact .inl ⟨id, kind, params, hfree, by simp, rfl⟩
  | connect source output target input => exact .inr ⟨source, output, target, input, rfl, h⟩

theorem WellFormed.apply {g g' : Graph} {step : BuildStep} (h : g.WellFormed)
    (ha : g.apply step = .ok g') : g'.WellFormed := by
  obtain ⟨id, kind, params, -, -, rfl⟩ | ⟨_, _, _, _, -, hc⟩ := apply_cases ha
  · exact h.push id kind params
  · exact h.connect hc

theorem WellFormed.build {g : Graph} (h : g.WellFormed) (steps : List BuildStep) :
    (build steps g).WellFormed := by
  induction steps generalizing g with
  | nil => exact h
  | cons step steps ih =>
    refine ih ?_
    dsimp only
    cases ha : g.apply step with
    | error e => exact h
    | ok g' => exact h.apply ha

/-- Every graph that was built is well formed. -/
theorem Built.wellFormed {g : Graph} (h : g.Built) : g.WellFormed := by
  obtain ⟨steps, rfl⟩ := h
  exact wellFormed_empty.build steps

/-! ### Boxes that feed others -/

theorem hasConsumers_iff_reads {g : Graph} {i : Nat} {id : BoxId} :
    g.hasConsumers i id = true ↔ ∃ node ∈ g.nodes, node.Reads i id := by
  simp only [hasConsumers, List.any_eq_true, Node.Reads]
  refine exists_congr fun node => and_congr_right fun _ => exists_congr fun b =>
    and_congr_right fun _ => ?_
  cases hc : b.connection with
  | none => simp [Box.Reads, hc]
  | some c => simp [Box.Reads, hc]

theorem WellFormed.hasConsumers_iff {g : Graph} (h : g.WellFormed) {i : Nat} {id : BoxId} :
    g.hasConsumers i id = true ↔ g.Feeds i id := by
  rw [hasConsumers_iff_reads]
  constructor
  · rintro ⟨node, hn, b, hb, c, hc, hreads⟩
    exact ⟨node, hn, b, hb, (h.fed node hn b hb c hc).1, c, hc, hreads⟩
  · rintro ⟨node, hn, b, hb, -, c, hc, hreads⟩
    exact ⟨node, hn, b, hb, c, hc, hreads⟩

/-- A box that feeds others is an output box of its node. -/
theorem WellFormed.output_of_feeds {g : Graph} (h : g.WellFormed) {i : Nat} {id : BoxId}
    (hf : g.Feeds i id) : ∃ node b, g.node? i = some node ∧ node.box? id = some b ∧
      b.direction = .output := by
  obtain ⟨m, hm, b, hb, -, c, hc, rfl, rfl⟩ := hf
  obtain ⟨-, kind, d, hkind, hd, hout⟩ := h.fed m hm b hb c hc
  obtain ⟨node, hn, rfl⟩ := Option.map_eq_some_iff.mp hkind
  have hdecl := h.map_decl_box? (List.mem_of_getElem? hn) c.box
  rw [hd] at hdecl
  obtain ⟨b', hb', rfl⟩ := Option.map_eq_some_iff.mp hdecl
  exact ⟨node, b', hn, hb', hout⟩

end Graph

/-! ### The graphs of an evaluation -/

namespace CallTree

/-- The box feeds another box of its graph. -/
def Feeds (table : List Instance) (key : BoxKey) : Prop :=
  ∃ inst, table[key.graph]? = some inst ∧ inst.graph.Feeds key.node key.box

/-- All graphs are well formed. -/
def WellFormed (table : List Instance) : Prop := ∀ inst ∈ table, inst.graph.WellFormed

variable {settings : Settings} {g : Graph} {table table' : List Instance} {key : BoxKey}

theorem Feeds.mono (hp : table <+: table') (h : Feeds table key) : Feeds table' key := by
  obtain ⟨inst, hi, hf⟩ := h
  exact ⟨inst, getElem?_mono hp hi, hf⟩

/-- The graphs are well formed if the material graph and all functions are. -/
theorem wellFormed (ht : CallTree settings g table) (hg : g.WellFormed)
    (hf : ∀ f ∈ Engine.functions settings.resolver, f.graph.WellFormed) : WellFormed table :=
  ht.forall_graph hg hf

end CallTree

namespace State

open CallTree

variable {s : State} {key producer : BoxKey}

theorem box?_eq (s : State) (key : BoxKey) :
    s.box? key = (node? s.instances key.graph key.node).bind (·.box? key.box) := by
  unfold box? instance? node? Graph.box?
  rw [Option.bind_assoc]

/-- Only boxes that feed others are asked for. -/
theorem feeds_of_producer? (hw : WellFormed s.instances) (h : s.producer? key = some producer) :
    Feeds s.instances producer := by
  obtain ⟨b, hb, hconn⟩ := Option.bind_eq_some_iff.mp h
  obtain ⟨c, hc, rfl⟩ := Option.map_eq_some_iff.mp hconn
  obtain ⟨inst, hi, hbox⟩ := Option.bind_eq_some_iff.mp hb
  obtain ⟨node, hn, hb⟩ := Option.bind_eq_some_iff.mp hbox
  have hmem := List.mem_of_getElem? hn
  have hb := List.mem_of_find?_eq_some hb
  have hin := ((hw inst (List.mem_of_getElem? hi)).fed node hmem b hb c hc).1
  exact ⟨inst, hi, node, hmem, b, hb, hin, c, hc, rfl, rfl⟩

/-- These are output boxes, with a node that exists. -/
theorem output_of_feeds (hw : WellFormed s.instances) (h : Feeds s.instances key) :
    ∃ node b, node? s.instances key.graph key.node = some node ∧ s.box? key = some b ∧
      node.box? key.box = some b ∧ b.direction = .output := by
  obtain ⟨inst, hi, hf⟩ := h
  obtain ⟨node, b, hn, hb, hout⟩ := (hw inst (List.mem_of_getElem? hi)).output_of_feeds hf
  have hnode : node? s.instances key.graph key.node = some node :=
    Option.bind_eq_some_iff.mpr ⟨inst, hi, hn⟩
  refine ⟨node, b, hnode, ?_, hb, hout⟩
  rw [box?_eq, hnode]
  exact hb

end State

end ShaderGraph
