import ShaderGraph.Generator
import ShaderGraph.Proofs.Building

/-! The invariant of building graphs. Whatever operations were tried, successful or not: numbers of
nodes are distinct, nodes have the boxes of their kinds, connections lead from output boxes that
exist, and the boxes with consumers are those that were connected from. -/

namespace ShaderGraph

namespace Graph

/-! ### Sequences of operations -/

/-- A sequence of operations is taken step by step, the last one on what the others built. -/
theorem build_concat (steps : List BuildStep) (step : BuildStep) :
    build (steps ++ [step]) = ((build steps).apply step).toOption.getD (build steps) := by
  rw [build, List.foldl_append]
  rfl

/-- What holds of the empty graph and is kept by every operation that succeeds holds of all graphs
that are built. -/
theorem build_induction {motive : Graph → Prop} (empty : motive {})
    (step : ∀ g g' step, motive g → g.apply step = .ok g' → motive g') (steps : List BuildStep) :
    motive (build steps) := by
  induction steps using List.reverseRecOn with
  | nil => exact empty
  | append_singleton steps last ih =>
    rw [build_concat]
    cases ha : (build steps).apply last with
    | error e => exact ih
    | ok g' => exact step _ g' last ih ha

/-! ### Numbers of nodes -/

def ids (g : Graph) : List NodeId := g.nodes.map (·.id)

theorem ids_push (g : Graph) (node : Node) : (g.push node).1.ids = g.ids ++ [node.id] := by
  simp [ids, push]

theorem ids_connect {g g' : Graph} {source target : UInt64} {output input : BoxId}
    (h : g.connect source output target input = .ok g') : g'.ids = g.ids := by
  obtain ⟨-, -, -, -, -, -, -, -, -, -, -, rfl⟩ := connect_ok h
  refine List.ext_getElem? fun i => ?_
  simp only [ids, List.getElem?_map, List.getElem?_modify]
  cases g.nodes[i]? with
  | none => rfl
  | some n => by_cases ht : target.toNat = i <;> simp [ht]

theorem nodup_ids_apply {g g' : Graph} {step : BuildStep} (h : g.ids.Nodup)
    (ha : g.apply step = .ok g') : g'.ids.Nodup := by
  obtain ⟨id, kind, params, hfree, -, rfl⟩ | ⟨_, _, _, _, -, hc⟩ := apply_cases ha
  · rw [ids_push]
    refine List.nodup_append.mpr ⟨h, List.pairwise_singleton _ _, ?_⟩
    simpa [ids, Node.ofKind] using hfree
  · rw [ids_connect hc]
    exact h

/-- No two nodes of a graph that was built have the same number. -/
theorem Built.nodup_ids {g : Graph} (h : g.Built) : g.ids.Nodup := by
  obtain ⟨steps, rfl⟩ := h
  exact build_induction List.nodup_nil (fun _ _ _ => nodup_ids_apply) steps

/-- The number after the largest possible one is needed just if that one is taken. -/
theorem not_maxId_lt_iff {g : Graph} :
    ¬ g.maxId < 4294967295 ↔ ∃ node ∈ g.nodes, node.id = 4294967295 := by
  have hle : g.maxId < 4294967295 ↔ ∀ node ∈ g.nodes, node.id.toNat ≤ 4294967294 :=
    Nat.lt_succ_iff.trans maxId_le_iff
  simp only [hle, not_forall, not_le, exists_prop]
  refine exists_congr fun node => and_congr_right fun _ => ?_
  have hlt : node.id.toNat < 4294967296 := node.id.toNat_lt
  have hmax : (4294967295 : UInt32).toNat = 4294967295 := rfl
  rw [← UInt32.toNat_inj, hmax]
  omega

theorem add_eq_error_iff {g : Graph} {kind : NodeKind} {params : List Param} {e : BuildError} :
    g.add kind params = .error e ↔
      e = .idOverflow ∧ ∃ node ∈ g.nodes, node.id = 4294967295 := by
  rw [← not_maxId_lt_iff, add]
  split
  next h => simp [h]
  next h => simp [h, eq_comm]

/-- A node that is added has a number that no other node has. -/
theorem add_ok {g g' : Graph} {kind : NodeKind} {params : List Param} {i : Nat}
    (h : g.add kind params = .ok (g', i)) : ∃ node, g'.nodes = g.nodes ++ [node] ∧
      g'.node? i = some node ∧ node.kind = kind ∧ node.params = params ∧ node.id ∉ g.ids := by
  rw [add] at h
  split at h
  next hmax =>
    cases h
    refine ⟨.ofKind (.ofNat (g.maxId + 1)) kind params, rfl, by simp [node?], rfl, rfl, ?_⟩
    intro hmem
    obtain ⟨node, hn, hid⟩ := List.mem_map.mp hmem
    exact id_ne_of_maxId_lt hmax hn hid
  next => cases h

/-! ### Connections -/

/-- Some box is fed through the connection. -/
def Links (g : Graph) (c : Connection) : Prop :=
  ∃ node ∈ g.nodes, ∃ b ∈ node.boxes, b.connection = some c

theorem hasConsumers_iff_links {g : Graph} {i : Nat} {id : BoxId} :
    g.hasConsumers i id = true ↔ ∃ source : UInt64, source.toNat = i ∧ g.Links ⟨source, id⟩ := by
  rw [hasConsumers_iff_reads]
  constructor
  · rintro ⟨node, hn, b, hb, c, hc, rfl, rfl⟩
    exact ⟨c.node, rfl, node, hn, b, hb, hc⟩
  · rintro ⟨source, rfl, node, hn, b, hb, hc⟩
    exact ⟨node, hn, b, hb, _, hc, rfl, rfl⟩

theorem links_push {g : Graph} {id : NodeId} {kind : NodeKind} {params : List Param}
    {c : Connection} : (g.push (.ofKind id kind params)).1.Links c ↔ g.Links c := by
  constructor
  · rintro ⟨node, hn, b, hb, hconn⟩
    rcases List.mem_append.mp hn with hn | hn
    · exact ⟨node, hn, b, hb, hconn⟩
    · obtain rfl := List.mem_singleton.mp hn
      simp [connection_ofKind hb] at hconn
  · rintro ⟨node, hn, hb⟩
    exact ⟨node, List.mem_append_left _ hn, hb⟩

/-- The box that is connected, and all the boxes that were connected before. -/
theorem exists_mem_connectBox {id : BoxId} {c c' : Connection} {boxes : List Box} {b : Box}
    (hfind : boxes.find? (·.id == id) = some b) (hfree : b.connection = none) :
    (∃ b' ∈ connectBox id c boxes, b'.connection = some c') ↔
      (∃ b' ∈ boxes, b'.connection = some c') ∨ c' = c := by
  induction boxes with
  | nil => simp at hfind
  | cons b₁ boxes ih =>
    rw [connectBox]
    split
    next hid =>
      have hfirst : (b₁ :: boxes).find? (·.id == id) = some b₁ := List.find?_cons_of_pos hid
      obtain rfl : b₁ = b := Option.some.inj (hfirst.symm.trans hfind)
      simp [hfree, or_comm, eq_comm]
    next hid =>
      have hskip : (b₁ :: boxes).find? (·.id == id) = boxes.find? (·.id == id) :=
        List.find?_cons_of_neg hid
      simp only [List.mem_cons, exists_eq_or_imp, ih (hskip.symm.trans hfind), or_assoc]

/-- A list with one changed element: what holds of some element. -/
theorem exists_mem_modify {α : Type} {l : List α} {i : Nat} {a : α} (f : α → α) (P : α → Prop)
    (h : l[i]? = some a) :
    (∃ x ∈ l.modify i f, P x) ↔ P (f a) ∨ ∃ j x, i ≠ j ∧ l[j]? = some x ∧ P x := by
  simp only [List.mem_iff_getElem?, List.getElem?_modify]
  constructor
  · rintro ⟨y, ⟨j, hj⟩, hy⟩
    obtain ⟨x, hx, rfl⟩ := Option.map_eq_some_iff.mp hj
    by_cases hij : i = j
    · subst hij
      obtain rfl : x = a := Option.some.inj (hx.symm.trans h)
      exact .inl (by simpa using hy)
    · exact .inr ⟨j, x, hij, hx, by simpa [hij] using hy⟩
  · rintro (hP | ⟨j, x, hij, hx, hP⟩)
    · exact ⟨f a, ⟨i, by simp [h]⟩, hP⟩
    · exact ⟨x, ⟨j, by simp [hij, hx]⟩, hP⟩

/-- A connection is only made to a box that has none, so none is lost. -/
theorem links_connect {g g' : Graph} {source target : UInt64} {output input : BoxId}
    {c : Connection} (h : g.connect source output target input = .ok g') :
    g'.Links c ↔ g.Links c ∨ c = ⟨source, output⟩ := by
  obtain ⟨-, consumer, -, b, -, -, -, hcons, hb, -, hfree, rfl⟩ := connect_ok h
  let P : Node → Prop := fun node => ∃ b ∈ node.boxes, b.connection = some c
  have hold : g.Links c ↔ P consumer ∨ ∃ j x, target.toNat ≠ j ∧ g.nodes[j]? = some x ∧ P x := by
    have hmod := exists_mem_modify id P hcons
    rwa [List.modify_id] at hmod
  refine (exists_mem_modify _ P hcons).trans ?_
  rw [hold, or_right_comm]
  exact or_congr_left (exists_mem_connectBox hb hfree)

/-- A connection exists just if an operation has made it. -/
theorem links_build_iff (steps : List BuildStep) (c : Connection) :
    (build steps).Links c ↔ ∃ earlier target input g',
      earlier ++ [.connect c.node c.box target input] <+: steps ∧
        (build earlier).connect c.node c.box target input = .ok g' := by
  induction steps using List.reverseRecOn with
  | nil => simp [build, Links]
  | append_singleton steps last ih =>
    simp only [List.prefix_concat_iff, or_and_right, exists_or, ← ih]
    rw [build_concat]
    cases ha : (build steps).apply last with
    | error e =>
      refine ⟨.inr, ?_⟩
      rintro (⟨earlier, target, input, g', heq, hc⟩ | h)
      · obtain ⟨rfl, rfl⟩ := List.append_singleton_inj.mp heq
        simp [apply, hc] at ha
      · exact h
    | ok g' =>
      obtain ⟨id, kind, params, -, hne, rfl⟩ | ⟨source, output, target, input, rfl, hc⟩ :=
        apply_cases ha
      · refine links_push.trans ⟨.inr, ?_⟩
        rintro (⟨earlier, target, input, g', heq, hc⟩ | h)
        · obtain ⟨rfl, rfl⟩ := List.append_singleton_inj.mp heq
          exact absurd rfl (hne _ _ _ _)
        · exact h
      · refine (links_connect hc).trans (or_comm.trans (or_congr_left ?_))
        constructor
        · rintro rfl
          exact ⟨steps, target, input, g', rfl, hc⟩
        · rintro ⟨earlier, target', input', g'', heq, -⟩
          obtain ⟨rfl, hstep⟩ := List.append_singleton_inj.mp heq
          cases hstep
          rfl

end Graph

/-- Every graph that operations build from nothing, failed ones included, has distinct numbers, the
boxes of its nodes' kinds, unconnected output boxes, connections from output boxes that exist, and
no remembered value. A box has consumers just if it was connected from. A further node never gets
a number that is taken, and fails to get one just if the largest is taken. -/
theorem construction_invariant (steps : List BuildStep) (domain : Domain) (resolver : Resolver) :
    let g := Graph.build steps
    (g.nodes.map (·.id)).Nodup ∧
    (∀ node ∈ g.nodes, node.boxes.map Box.decl = node.kind.layout) ∧
    (∀ node ∈ g.nodes, ∀ b ∈ node.boxes, b.direction = .output → b.connection = none) ∧
    (∀ node ∈ g.nodes, ∀ b ∈ node.boxes, ∀ c, b.connection = some c →
      ∃ producer out, g.node? c.node.toNat = some producer ∧ producer.box? c.box = some out ∧
        out.direction = .output) ∧
    (∀ node box, (Generator.new g domain resolver).remembered? node box = none) ∧
    (∀ n box, g.hasConsumers n box = true ↔ ∃ earlier source target input g',
      source.toNat = n ∧ earlier ++ [.connect source box target input] <+: steps ∧
        (Graph.build earlier).connect source box target input = .ok g') ∧
    ∀ kind params,
      (∀ e, g.add kind params = .error e ↔
        e = .idOverflow ∧ ∃ node ∈ g.nodes, node.id = 4294967295) ∧
      ∀ g' i, g.add kind params = .ok (g', i) → ∃ node, g'.nodes = g.nodes ++ [node] ∧
        g'.node? i = some node ∧ node.kind = kind ∧ node.params = params ∧
          ∀ other ∈ g.nodes, other.id ≠ node.id := by
  intro g
  have hbuilt : g.Built := ⟨steps, rfl⟩
  have hw : g.WellFormed := hbuilt.wellFormed
  refine ⟨hbuilt.nodup_ids, hw.layout, ?_, ?_, fun _ _ => rfl, ?_, ?_⟩
  · intro node hn b hb hout
    refine Option.eq_none_iff_forall_ne_some.mpr fun c hc => ?_
    have hin := (hw.fed node hn b hb c hc).1
    simp [hout] at hin
  · intro node hn b hb c hc
    have hin := (hw.fed node hn b hb c hc).1
    exact hw.output_of_feeds ⟨node, hn, b, hb, hin, c, hc, rfl, rfl⟩
  · intro n box
    rw [Graph.hasConsumers_iff_links]
    simp only [g, Graph.links_build_iff]
    constructor
    · rintro ⟨source, hs, earlier, target, input, g', h⟩
      exact ⟨earlier, source, target, input, g', hs, h⟩
    · rintro ⟨earlier, source, target, input, g', hs, h⟩
      exact ⟨source, hs, earlier, target, input, g', h⟩
  · intro kind params
    refine ⟨fun e => Graph.add_eq_error_iff, fun g' i h => ?_⟩
    obtain ⟨node, hnodes, hnode, hkind, hparams, hfree⟩ := Graph.add_ok h
    refine ⟨node, hnodes, hnode, hkind, hparams, fun other hother heq => hfree ?_⟩
    exact heq ▸ List.mem_map_of_mem hother

end ShaderGraph
