import ShaderGraph.Proofs.Derivation

/-! The graphs of an evaluation form a tree: the material graph is its root, and every other graph
was made for one call node of an earlier graph. No function occurs twice on the way from the root to
a graph. A call context is valid if its graphs are the way to the current one, and its calls are
calls of the tree. -/

namespace ShaderGraph

namespace Resolver

variable {r : Resolver} {earlier : Nat} {id : AssetId} {function : MaterialFunction}

theorem library_mem_or (r : Resolver) (earlier : Nat) :
    r.library earlier ∈ r.libraries ∨ r.library earlier = {} := by
  unfold library
  cases h : r.libraries[earlier]? with
  | some l => exact .inl (List.mem_of_getElem? h)
  | none =>
    cases h' : r.libraries.getLast? with
    | some l => exact .inl (List.mem_of_getLast? h')
    | none => exact .inr rfl

/-- A loaded function is one of those that can be loaded, and has the identifier asked for. -/
theorem load_ok (h : r.load earlier id = .ok function) :
    function ∈ Engine.functions r ∧ function.id = id := by
  unfold load Library.load at h
  split at h
  next f hf =>
    cases h
    have hm := List.mem_of_find?_eq_some hf
    have hid := List.find?_some hf
    simp only [beq_iff_eq] at hid
    refine ⟨List.mem_flatMap.mpr ⟨_, ?_, List.mem_filterMap.mpr ⟨_, hm, rfl⟩⟩, hid⟩
    rcases r.library_mem_or earlier with hl | hl
    · exact hl
    · simp [hl] at hm
  next => cases h
  next => cases h

/-- All loads go to the only library. -/
theorem load_single (library : Library) (earlier : Nat) (id : AssetId) :
    load ⟨[library]⟩ earlier id = library.load id := by
  unfold load Resolver.library
  cases earlier <;> rfl

end Resolver

namespace CallTree

/-- The call for which a graph was made. -/
def origin? (table : List Instance) (i : Nat) : Option Origin := table[i]?.bind (·.origin)

def node? (table : List Instance) (i n : Nat) : Option Node := table[i]?.bind (·.graph.node? n)

/-- The way from the root to a graph, the graph itself first. -/
inductive Lineage (table : List Instance) : Nat → List Nat → Prop
  | root : Lineage table 0 [0]
  | call {i o c} (ho : origin? table i = some o) (hc : Lineage table o.caller c) :
      Lineage table i (i :: c)

variable {table table' : List Instance} {i j n : Nat} {o o' : Origin} {c : List Nat}
  {inst : Instance}

theorem getElem?_of_origin? (h : origin? table i = some o) :
    ∃ inst, table[i]? = some inst ∧ inst.origin = some o :=
  Option.bind_eq_some_iff.mp h

theorem lt_of_origin? (h : origin? table i = some o) : i < table.length := by
  obtain ⟨inst, hi, -⟩ := getElem?_of_origin? h
  exact (List.getElem?_eq_some_iff.mp hi).1

theorem lt_of_node? {node : Node} (h : node? table i n = some node) : i < table.length := by
  obtain ⟨inst, hi, -⟩ := Option.bind_eq_some_iff.mp h
  exact (List.getElem?_eq_some_iff.mp hi).1

/-! ### Longer tables -/

theorem getElem?_mono (hp : table <+: table') (h : table[i]? = some inst) :
    table'[i]? = some inst := by
  obtain ⟨rest, rfl⟩ := hp
  rwa [List.getElem?_append_left (List.getElem?_eq_some_iff.mp h).1]

theorem origin?_mono (hp : table <+: table') (h : origin? table i = some o) :
    origin? table' i = some o := by
  obtain ⟨inst, hi, ho⟩ := getElem?_of_origin? h
  exact Option.bind_eq_some_iff.mpr ⟨inst, getElem?_mono hp hi, ho⟩

theorem node?_mono {node : Node} (hp : table <+: table') (h : node? table i n = some node) :
    node? table' i n = some node := by
  obtain ⟨inst, hi, hn⟩ := Option.bind_eq_some_iff.mp h
  exact Option.bind_eq_some_iff.mpr ⟨inst, getElem?_mono hp hi, hn⟩

theorem origin?_of_lt (hp : table <+: table') (hi : i < table.length) :
    origin? table' i = origin? table i := by
  obtain ⟨rest, rfl⟩ := hp
  rw [origin?, origin?, List.getElem?_append_left hi]

theorem Lineage.mono (hp : table <+: table') (h : Lineage table i c) : Lineage table' i c := by
  induction h with
  | root => exact .root
  | call ho _ ih => exact .call (origin?_mono hp ho) ih

theorem origin?_append_one (table : List Instance) (inst : Instance) (i : Nat) :
    origin? (table ++ [inst]) i = if i = table.length then inst.origin else origin? table i := by
  rcases Nat.lt_trichotomy i table.length with h | h | h
  · rw [if_neg (by omega), origin?_of_lt (List.prefix_append _ _) h]
  · subst h
    simp [origin?]
  · rw [if_neg (by omega), origin?, origin?, List.getElem?_eq_none (by simp; omega),
      List.getElem?_eq_none (by omega)]

/-! ### Lineages -/

theorem Lineage.head? (h : Lineage table i c) : c.head? = some i := by
  cases h <;> rfl

theorem Lineage.getLast? (h : Lineage table i c) : c.getLast? = some 0 := by
  induction h with
  | root => rfl
  | call ho hc ih => rw [List.getLast?_cons, ih]; rfl

/-- There is one way to a graph. -/
theorem Lineage.unique {c' : List Nat} (hr : origin? table 0 = none) (h : Lineage table i c)
    (h' : Lineage table i c') : c = c' := by
  induction h generalizing c' with
  | root =>
    cases h' with
    | root => rfl
    | call ho _ => simp [hr] at ho
  | call ho _ ih =>
    cases h' with
    | root => simp [hr] at ho
    | call ho' hc' =>
      obtain rfl : _ = _ := Option.some.inj (ho.symm.trans ho')
      rw [ih hc']

end CallTree

open CallTree in
/-- The graphs of an evaluation of the material graph `g`. -/
structure CallTree (settings : Settings) (g : Graph) (table : List Instance) : Prop where
  root : table[0]? = some ⟨g, none⟩
  /-- Every graph but the first is that of the function it was made for. -/
  made : ∀ i inst, table[i]? = some inst → i ≠ 0 →
    ∃ o, inst.origin = some o ∧ inst.graph = o.function.graph
  /-- It was made for a call node of an earlier graph, which asks for that function. -/
  caller : ∀ i o, origin? table i = some o → o.caller < i ∧
    ∃ node, node? table o.caller o.site = some node ∧ node.kind = .materialFunction ∧
      ∃ earlier, settings.resolver.load earlier node.callee = .ok o.function
  /-- One graph is made for a call node. -/
  once : ∀ i j o o', origin? table i = some o → origin? table j = some o' →
    o.caller = o'.caller → o.site = o'.site → i = j
  /-- No function is called on the way to a graph that is one of its own. -/
  fresh : ∀ i o c, origin? table i = some o → Lineage table o.caller c →
    ∀ j ∈ c, ∀ o', origin? table j = some o' → o'.function.id ≠ o.function.id

namespace CallTree

variable {settings : Settings} {g : Graph} {table table' : List Instance} {i j n : Nat}
  {o o' : Origin} {c : List Nat} {inst : Instance}

/-- At first there is the material graph alone. -/
theorem single (settings : Settings) (g : Graph) : CallTree settings g [⟨g, none⟩] := by
  have hnone : ∀ i, origin? [⟨g, none⟩] i = none := fun i => by cases i <;> rfl
  constructor
  case root => rfl
  case made =>
    intro i inst hi h0
    obtain ⟨k, rfl⟩ := Nat.exists_eq_succ_of_ne_zero h0
    simp at hi
  all_goals simp [hnone]

theorem origin?_root (ht : CallTree settings g table) : origin? table 0 = none := by
  rw [origin?, ht.root]
  rfl

theorem exists_origin? (ht : CallTree settings g table) (hi : i < table.length) (h0 : i ≠ 0) :
    ∃ o, origin? table i = some o := by
  obtain ⟨o, ho, -⟩ := ht.made i _ (List.getElem?_eq_getElem hi) h0
  exact ⟨o, Option.bind_eq_some_iff.mpr ⟨_, List.getElem?_eq_getElem hi, ho⟩⟩

theorem lineage_lt (ht : CallTree settings g table) (h : Lineage table i c) :
    ∀ j ∈ c, j < table.length := by
  induction h with
  | root => simpa using (List.getElem?_eq_some_iff.mp ht.root).1
  | call ho _ ih =>
    intro j hj
    rcases List.mem_cons.mp hj with rfl | hj
    · exact lt_of_origin? ho
    · exact ih j hj

/-- Every graph of the table is reached. -/
theorem exists_lineage (ht : CallTree settings g table) (hi : i < table.length) :
    ∃ c, Lineage table i c := by
  -- along the callers, which come earlier
  induction i using Nat.strongRecOn with
  | _ i ih =>
    by_cases h0 : i = 0
    · subst h0
      exact ⟨[0], .root⟩
    · obtain ⟨o, ho⟩ := ht.exists_origin? hi h0
      have hlt := (ht.caller i o ho).1
      obtain ⟨c, hc⟩ := ih o.caller hlt (by omega)
      exact ⟨i :: c, .call ho hc⟩

/-- The way to a graph of the table does not lead through graphs added later. -/
theorem lineage_of_lt (ht : CallTree settings g table) (hp : table <+: table')
    (hi : i < table.length) (h : Lineage table' i c) : Lineage table i c := by
  induction h with
  | root => exact .root
  | @call i o c ho _ ih =>
    rw [origin?_of_lt hp hi] at ho
    have hlt := (ht.caller i o ho).1
    exact .call ho (ih (by omega))

/-- What holds of the material graph and of all functions that are loaded holds of all graphs of the
tree. -/
theorem forall_loaded {Q : Graph → Prop} (ht : CallTree settings g table) (hg : Q g)
    (hf : ∀ earlier id f, settings.resolver.load earlier id = .ok f → Q f.graph) :
    ∀ inst ∈ table, Q inst.graph := by
  intro inst hmem
  obtain ⟨i, hi⟩ := List.mem_iff_getElem?.mp hmem
  by_cases h0 : i = 0
  · subst h0
    obtain rfl : inst = ⟨g, none⟩ := Option.some.inj (hi.symm.trans ht.root)
    exact hg
  · obtain ⟨o, ho, hgraph⟩ := ht.made i inst hi h0
    obtain ⟨-, _, -, -, _, hl⟩ := ht.caller i o (Option.bind_eq_some_iff.mpr ⟨inst, hi, ho⟩)
    rw [hgraph]
    exact hf _ _ o.function hl

/-- The same for the functions that can be loaded. -/
theorem forall_graph {Q : Graph → Prop} (ht : CallTree settings g table) (hg : Q g)
    (hf : ∀ f ∈ Engine.functions settings.resolver, Q f.graph) : ∀ inst ∈ table, Q inst.graph :=
  ht.forall_loaded hg fun _ _ f hl => hf f (Resolver.load_ok hl).1

/-- The same for nodes. -/
theorem forall_node {Q : Node → Prop} {node : Node} (ht : CallTree settings g table)
    (hg : ∀ node ∈ g.nodes, Q node)
    (hf : ∀ f ∈ Engine.functions settings.resolver, ∀ node ∈ f.graph.nodes, Q node)
    (hn : node? table i n = some node) : Q node := by
  obtain ⟨inst, hi, hnode⟩ := Option.bind_eq_some_iff.mp hn
  have hall := ht.forall_graph (Q := fun g => ∀ node ∈ g.nodes, Q node) hg hf
  exact hall inst (List.mem_of_getElem? hi) node (List.mem_of_getElem? hnode)

/-- A graph is added for a call node that has none yet. -/
theorem append {node : Node} {earlier caller : Nat} {function : MaterialFunction}
    (ht : CallTree settings g table) (hn : node? table caller n = some node)
    (hk : node.kind = .materialFunction)
    (hl : settings.resolver.load earlier node.callee = .ok function)
    (hnew : ∀ j o, origin? table j = some o → o.caller = caller → o.site ≠ n)
    (hc : Lineage table caller c)
    (hfresh : ∀ j ∈ c, ∀ o, origin? table j = some o → o.function.id ≠ function.id)
    (path : List NodeId) :
    CallTree settings g (table ++ [⟨function.graph, some ⟨caller, n, function, path⟩⟩]) := by
  have hp : table <+: table ++ [⟨function.graph, some ⟨caller, n, function, path⟩⟩] :=
    List.prefix_append _ _
  have hcaller : caller < table.length := lt_of_node? hn
  constructor
  case root => exact getElem?_mono hp ht.root
  case made =>
    intro i inst hi h0
    by_cases hlt : i < table.length
    · rw [List.getElem?_append_left hlt] at hi
      exact ht.made i inst hi h0
    · have hlen := (List.getElem?_eq_some_iff.mp hi).1
      simp only [List.length_append, List.length_singleton] at hlen
      obtain rfl : i = table.length := by omega
      simp only [List.getElem?_append_right (Nat.le_refl _), Nat.sub_self,
        List.getElem?_cons_zero, Option.some.injEq] at hi
      subst hi
      exact ⟨_, rfl, rfl⟩
  case caller =>
    intro i o ho
    rw [origin?_append_one] at ho
    split at ho
    next hi =>
      obtain rfl : _ = o := Option.some.inj ho
      exact ⟨hi ▸ hcaller, node, node?_mono hp hn, hk, earlier, hl⟩
    next =>
      obtain ⟨hlt, node', hn', hk', hl'⟩ := ht.caller i o ho
      exact ⟨hlt, node', node?_mono hp hn', hk', hl'⟩
  case once =>
    intro i j o o' ho ho' hcall hsite
    rw [origin?_append_one] at ho ho'
    split at ho <;> split at ho'
    next hi hj => omega
    next hi hj =>
      obtain rfl : _ = o := Option.some.inj ho
      exact absurd hsite.symm (hnew j o' ho' hcall.symm)
    next hi hj =>
      obtain rfl : _ = o' := Option.some.inj ho'
      exact absurd hsite (hnew i o ho hcall)
    next => exact ht.once i j o o' ho ho' hcall hsite
  case fresh =>
    intro i o c' ho hl' j hj o' ho'
    rw [origin?_append_one] at ho
    have hcallee : o.caller < table.length ∧
        ∀ j ∈ c', ∀ o', origin? table j = some o' → o'.function.id ≠ o.function.id := by
      split at ho
      next hi =>
        obtain rfl : _ = o := Option.some.inj ho
        have hold := ht.lineage_of_lt hp hcaller hl'
        rw [hold.unique ht.origin?_root hc]
        exact ⟨hcaller, hfresh⟩
      next =>
        have hlt := (ht.caller i o ho).1
        have hi := lt_of_origin? ho
        exact ⟨by omega, ht.fresh i o c' ho (ht.lineage_of_lt hp (by omega) hl')⟩
    have hold := ht.lineage_of_lt hp hcallee.1 hl'
    rw [origin?_of_lt hp (ht.lineage_lt hold j hj)] at ho'
    exact hcallee.2 j hj o' ho'

/-- With one library, a graph is that of the function its call node asks for. -/
theorem function_eq {library : Library} {node : Node} {earlier : Nat} {function : MaterialFunction}
    (hr : settings.resolver = ⟨[library]⟩) (ht : CallTree settings g table)
    (ho : origin? table i = some o) (hn : node? table o.caller o.site = some node)
    (hl : settings.resolver.load earlier node.callee = .ok function) : o.function = function := by
  obtain ⟨-, node', hn', -, _, hl'⟩ := ht.caller i o ho
  obtain rfl : node' = node := Option.some.inj (hn'.symm.trans hn)
  rw [hr, Resolver.load_single] at hl hl'
  exact Except.ok.inj (hl'.symm.trans hl)

end CallTree

/-! ### Contexts -/

open CallTree in
/-- A context of the tree: its graphs are the way to the current one, and each of them that was
called has an active call. Calls may be active whose graphs have been left for an argument. -/
structure CallContext.Valid (settings : Settings) (table : List Instance) (c : CallContext) :
    Prop where
  lineage : ∃ i, Lineage table i c.graphs
  frames : ∀ f ∈ c.frames, ∃ o, origin? table f.graph = some o ∧ f.caller = o.caller ∧
    f.site = o.site ∧ ∃ earlier, settings.resolver.load earlier o.function.id = .ok f.function
  covered : ∀ i ∈ c.graphs, i ≠ 0 → ∃ f ∈ c.frames, f.graph = i

namespace CallContext

open CallTree

variable {settings : Settings} {g : Graph} {table table' : List Instance} {c : CallContext}
  {i : Nat} {o : Origin} {frame : CallFrame}

theorem valid_root (settings : Settings) (table : List Instance) :
    root.Valid settings table :=
  ⟨⟨0, .root⟩, by simp [root], by simp [root]⟩

theorem Valid.mono (hp : table <+: table') (h : c.Valid settings table) :
    c.Valid settings table' := by
  obtain ⟨⟨i, hl⟩, hf, hc⟩ := h
  refine ⟨⟨i, hl.mono hp⟩, fun f hm => ?_, hc⟩
  obtain ⟨o, ho, hrest⟩ := hf f hm
  exact ⟨o, origin?_mono hp ho, hrest⟩

theorem Valid.lineage_current (h : c.Valid settings table) (hi : c.current? = some i) :
    Lineage table i c.graphs := by
  obtain ⟨j, hl⟩ := h.lineage
  obtain rfl : j = i := Option.some.inj (hl.head?.symm.trans hi)
  exact hl

@[simp] theorem leave_enter (c : CallContext) (frame : CallFrame) : (c.enter frame).leave = c := rfl

theorem Valid.enter (h : c.Valid settings table) (ho : origin? table frame.graph = some o)
    (hcur : c.current? = some o.caller) (hcaller : frame.caller = o.caller)
    (hsite : frame.site = o.site)
    (hl : ∃ earlier, settings.resolver.load earlier o.function.id = .ok frame.function) :
    (c.enter frame).Valid settings table := by
  refine ⟨⟨frame.graph, .call ho (h.lineage_current hcur)⟩, ?_, ?_⟩
  · intro f hf
    rcases List.mem_cons.mp hf with rfl | hf
    · exact ⟨o, ho, hcaller, hsite, hl⟩
    · exact h.frames f hf
  · intro i hi h0
    rcases List.mem_cons.mp hi with rfl | hi
    · exact ⟨frame, List.mem_cons_self, rfl⟩
    · obtain ⟨f, hf, hg⟩ := h.covered i hi h0
      exact ⟨f, List.mem_cons_of_mem _ hf, hg⟩

theorem currentFrame?_some (hcur : c.current? = some i) (h : c.currentFrame? = some frame) :
    frame ∈ c.frames ∧ frame.graph = i := by
  simp only [currentFrame?, hcur, Option.bind_some] at h
  exact ⟨List.mem_of_find?_eq_some h, by simpa using List.find?_some h⟩

/-- A called graph under evaluation has its call among the active ones. -/
theorem Valid.exists_currentFrame? (h : c.Valid settings table) (hcur : c.current? = some i)
    (h0 : i ≠ 0) : ∃ frame, c.currentFrame? = some frame := by
  have hi : i ∈ c.graphs := List.mem_of_head? hcur
  obtain ⟨f, hf, hg⟩ := h.covered i hi h0
  simp only [currentFrame?, hcur, Option.bind_some]
  exact Option.isSome_iff_exists.mp (List.find?_isSome.mpr ⟨f, hf, by simpa using hg⟩)

/-- The call of the current graph is the one for which the graph was made. -/
theorem Valid.currentFrame (h : c.Valid settings table) (hcur : c.current? = some i)
    (hf : c.currentFrame? = some frame) :
    ∃ o, origin? table i = some o ∧ frame.caller = o.caller ∧ frame.site = o.site ∧
      ∃ earlier, settings.resolver.load earlier o.function.id = .ok frame.function := by
  obtain ⟨hm, rfl⟩ := currentFrame?_some hcur hf
  exact h.frames frame hm

/-- With one library, it is a call of the function from which the graph was made. -/
theorem Valid.function_eq {library : Library} (hr : settings.resolver = ⟨[library]⟩)
    (ht : CallTree settings g table) (h : c.Valid settings table) (hcur : c.current? = some i)
    (hf : c.currentFrame? = some frame) (ho : origin? table i = some o) :
    frame.function = o.function := by
  obtain ⟨o', ho', -, -, _, hl⟩ := h.currentFrame hcur hf
  obtain rfl : o' = o := Option.some.inj (ho'.symm.trans ho)
  obtain ⟨-, node, hn, -, _, hl'⟩ := ht.caller i o' ho
  rw [(Resolver.load_ok hl').2] at hl
  exact (ht.function_eq hr ho hn hl).symm

/-- Without the current graph, a context leads to its caller. -/
theorem Valid.lineage_tail (ht : CallTree settings g table) (h : c.Valid settings table)
    (hcur : c.current? = some i) (ho : origin? table i = some o) :
    Lineage table o.caller c.graphs.tail := by
  have hl := h.lineage_current hcur
  cases hg : c.graphs with
  | nil => simp [current?, hg] at hcur
  | cons j rest =>
    rw [hg] at hl
    cases hl with
    | root => simp [ht.origin?_root] at ho
    | call ho' hrest =>
      obtain rfl : _ = o := Option.some.inj (ho'.symm.trans ho)
      exact hrest

/-- Arguments are evaluated in the graph of the caller. -/
theorem Valid.current?_inCaller (ht : CallTree settings g table) (h : c.Valid settings table)
    (hcur : c.current? = some i) (ho : origin? table i = some o) :
    c.inCaller.current? = some o.caller :=
  (h.lineage_tail ht hcur ho).head?

theorem Valid.inCaller (ht : CallTree settings g table) (h : c.Valid settings table)
    (hcur : c.current? = some i) (ho : origin? table i = some o) :
    c.inCaller.Valid settings table :=
  ⟨⟨o.caller, h.lineage_tail ht hcur ho⟩, h.frames,
    fun j hj => h.covered j (List.mem_of_mem_tail hj)⟩

theorem back_inCaller (hcur : c.current? = some i) : c.inCaller.back i = c := by
  obtain ⟨frames, graphs⟩ := c
  cases graphs with
  | nil => simp [current?] at hcur
  | cons j rest =>
    obtain rfl : j = i := by simpa [current?] using hcur
    rfl

end CallContext

end ShaderGraph
