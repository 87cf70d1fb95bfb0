import Mathlib.Data.Finset.Card
import Mathlib.Data.Finset.Prod
import Mathlib.Data.List.Dedup
import Mathlib.Tactic.GCongr
import Mathlib.Tactic.Ring
import ShaderGraph.Proofs.Invariant

/-! The tree of all graphs that calls can lead to, made from the material graph and the functions
that can be loaded. The graphs of an evaluation are among its members, so that the nodes of the tree
bound the number of nodes that can be under way at once. -/

namespace ShaderGraph

/-- A graph that calls lead to: the call nodes on the way and the functions they call, the latest
first, and the graph at its end. -/
structure Branch where
  sites : List Nat
  called : List AssetId
  graph : Graph

namespace Branch

def root (g : Graph) : Branch := ⟨[], [], g⟩

/-- The graphs called from a graph. A function on the way is not called again. -/
def calls (functions : List MaterialFunction) (b : Branch) : List Branch :=
  b.graph.nodes.zipIdx.flatMap fun (node, n) =>
    if node.kind = .materialFunction ∧ node.callee ∉ b.called then
      (functions.filter (·.id == node.callee)).map fun f =>
        ⟨n :: b.sites, f.id :: b.called, f.graph⟩
    else []

/-- The graphs that at most `depth` calls lead to. -/
def within (functions : List MaterialFunction) (g : Graph) : (depth : Nat) → List Branch
  | 0 => [root g]
  | depth + 1 => root g :: (within functions g depth).flatMap (calls functions)

variable {functions : List MaterialFunction} {g : Graph} {b b' : Branch} {depth : Nat}

theorem mem_within_succ (h : b ∈ within functions g depth) (hc : b' ∈ b.calls functions) :
    b' ∈ within functions g (depth + 1) :=
  List.mem_cons_of_mem _ (List.mem_flatMap.mpr ⟨b, h, hc⟩)

theorem within_subset {depth' : Nat} (h : depth ≤ depth') :
    within functions g depth ⊆ within functions g depth' := by
  induction depth generalizing depth' with
  | zero =>
    intro b hb
    obtain rfl : b = root g := by simpa [within] using hb
    cases depth' <;> exact List.mem_cons_self
  | succ depth ih =>
    obtain ⟨d, rfl⟩ := Nat.exists_eq_add_of_le' (show 1 ≤ depth' by omega)
    intro b hb
    rcases List.mem_cons.mp hb with rfl | hb
    · exact List.mem_cons_self
    · obtain ⟨b', hb', hc⟩ := List.mem_flatMap.mp hb
      exact mem_within_succ (ih (by omega) hb') hc

theorem mem_calls :
    b' ∈ b.calls functions ↔ ∃ n node f, b.graph.node? n = some node ∧
      node.kind = .materialFunction ∧ node.callee ∉ b.called ∧ f ∈ functions ∧
      f.id = node.callee ∧ b' = ⟨n :: b.sites, f.id :: b.called, f.graph⟩ := by
  simp only [calls, List.mem_flatMap, Prod.exists, List.mk_mem_zipIdx_iff_getElem?, Graph.node?]
  constructor
  · rintro ⟨node, n, hn, hb⟩
    split at hb
    next hk =>
      obtain ⟨f, hf, rfl⟩ := List.mem_map.mp hb
      obtain ⟨hmem, hid⟩ := List.mem_filter.mp hf
      exact ⟨n, node, f, hn, hk.1, hk.2, hmem, by simpa using hid, rfl⟩
    next => simp at hb
  · rintro ⟨n, node, f, hn, hk, hc, hf, hid, rfl⟩
    refine ⟨node, n, hn, ?_⟩
    rw [if_pos ⟨hk, hc⟩]
    exact List.mem_map.mpr ⟨f, List.mem_filter.mpr ⟨hf, by simpa using hid⟩, rfl⟩

end Branch

namespace Resolver

/-- How many different functions can be loaded. -/
def functionCount (r : Resolver) : Nat := ((Engine.functions r).map (·.id)).eraseDups.length

/-- The graphs that calls can lead to from a material graph. -/
def branches (r : Resolver) (g : Graph) : List Branch :=
  Branch.within (Engine.functions r) g r.functionCount

/-- The nodes of all these graphs: the way to a graph, and the position of a node there. -/
def places (r : Resolver) (g : Graph) : Finset (List Nat × Nat) :=
  ((r.branches g).flatMap fun b => (List.range b.graph.nodes.length).map (b.sites, ·)).toFinset

end Resolver

/-! ### The graphs of an evaluation -/

namespace CallTree

/-- The call nodes on the way to a graph. -/
def sites (table : List Instance) (c : List Nat) : List Nat :=
  c.filterMap fun i => (origin? table i).map (·.site)

/-- The functions called on the way to a graph. -/
def called (table : List Instance) (c : List Nat) : List AssetId :=
  c.filterMap fun i => (origin? table i).map (·.function.id)

variable {settings : Settings} {g : Graph} {table : List Instance} {i j n : Nat} {c c' : List Nat}
  {o : Origin} {inst : Instance} {node : Node}

theorem sites_root (ht : CallTree settings g table) : sites table [0] = [] := by
  simp [sites, ht.origin?_root]

theorem sites_cons (ho : origin? table i = some o) (c : List Nat) :
    sites table (i :: c) = o.site :: sites table c := by
  simp [sites, ho]

theorem called_cons (ho : origin? table i = some o) (c : List Nat) :
    called table (i :: c) = o.function.id :: called table c := by
  simp [called, ho]

theorem mem_called {id : AssetId} :
    id ∈ called table c ↔ ∃ j ∈ c, ∃ o, origin? table j = some o ∧ o.function.id = id := by
  simp [called]

/-- No function is called twice on the way to a graph. -/
theorem nodup_called (ht : CallTree settings g table) (h : Lineage table i c) :
    (called table c).Nodup := by
  induction h with
  | root => simp [called, ht.origin?_root]
  | @call i o c ho hc ih =>
    rw [called_cons ho]
    refine List.nodup_cons.mpr ⟨fun hm => ?_, ih⟩
    obtain ⟨j, hj, o', ho', hid⟩ := mem_called.mp hm
    exact ht.fresh i o c ho hc j hj o' ho' hid

theorem length_called_le (ht : CallTree settings g table) (h : Lineage table i c) :
    (called table c).length ≤ settings.resolver.functionCount := by
  refine (ht.nodup_called h).length_le_of_subset fun id hid => List.mem_eraseDups.mpr ?_
  obtain ⟨j, -, o, ho, rfl⟩ := mem_called.mp hid
  obtain ⟨-, node, -, -, earlier, hl⟩ := ht.caller j o ho
  exact List.mem_map.mpr ⟨o.function, (Resolver.load_ok hl).1, rfl⟩

/-- Every graph of the evaluation is a branch of the tree. -/
theorem branch_mem_within (ht : CallTree settings g table) (h : Lineage table i c)
    (hi : table[i]? = some inst) :
    ⟨sites table c, called table c, inst.graph⟩ ∈
      Branch.within (Engine.functions settings.resolver) g (called table c).length := by
  induction h generalizing inst with
  | root =>
    obtain rfl : inst = ⟨g, none⟩ := Option.some.inj (hi.symm.trans ht.root)
    simp [sites, called, ht.origin?_root, Branch.within, Branch.root]
  | @call i o c ho hc ih =>
    obtain ⟨hlt, node, hn, hk, earlier, hl⟩ := ht.caller i o ho
    obtain ⟨caller, hcaller, hnode⟩ := Option.bind_eq_some_iff.mp hn
    obtain ⟨hf, hid⟩ := Resolver.load_ok hl
    have hgraph : inst.graph = o.function.graph := by
      obtain ⟨o', ho', hg⟩ := ht.made i inst hi (by omega)
      obtain ⟨inst', hi', ho''⟩ := getElem?_of_origin? ho
      obtain rfl : inst' = inst := Option.some.inj (hi'.symm.trans hi)
      obtain rfl : o' = o := Option.some.inj (ho'.symm.trans ho'')
      exact hg
    have hnew : node.callee ∉ called table c := by
      intro hm
      obtain ⟨j, hj, o', ho', hid'⟩ := mem_called.mp hm
      exact ht.fresh i o c ho hc j hj o' ho' (hid'.trans hid.symm)
    rw [sites_cons ho, called_cons ho, hgraph, List.length_cons]
    refine Branch.mem_within_succ (ih hcaller) (Branch.mem_calls.mpr ?_)
    exact ⟨o.site, node, o.function, hnode, hk, hnew, hf, hid, rfl⟩

/-- Different graphs are reached on different ways. -/
theorem eq_of_sites_eq (ht : CallTree settings g table) (h : Lineage table i c)
    (h' : Lineage table j c') (hs : sites table c = sites table c') : i = j := by
  induction h generalizing j c' with
  | root =>
    cases h' with
    | root => rfl
    | call ho _ => simp [ht.sites_root, sites_cons ho] at hs
  | @call i o c ho hc ih =>
    cases h' with
    | root => simp [ht.sites_root, sites_cons ho] at hs
    | @call _ o' c' ho' hc' =>
      rw [sites_cons ho, sites_cons ho'] at hs
      obtain ⟨hsite, hrest⟩ := List.cons.inj hs
      exact ht.once i j o o' ho ho' (ih hc' hrest) hsite

theorem place_mem (ht : CallTree settings g table) (h : Lineage table i c)
    (hn : node? table i n = some node) :
    (sites table c, n) ∈ settings.resolver.places g := by
  obtain ⟨inst, hi, hnode⟩ := Option.bind_eq_some_iff.mp hn
  have hb := Branch.within_subset (ht.length_called_le h) (ht.branch_mem_within h hi)
  refine List.mem_toFinset.mpr (List.mem_flatMap.mpr ⟨_, hb, ?_⟩)
  simp only [List.mem_map, List.mem_range, Prod.mk.injEq, true_and, exists_eq_right]
  exact (List.getElem?_eq_some_iff.mp hnode).1

/-- Nodes under way at once are different nodes of the tree. -/
theorem Active.length_le {active : List (Nat × Nat)} (ht : CallTree settings g table)
    (ha : Active table active) : active.length ≤ (settings.resolver.places g).card := by
  have hway : ∀ p ∈ active, ∃ c, Lineage table p.1 c := fun p hp => by
    obtain ⟨node, hn⟩ := ha.exists_node p hp
    exact ht.exists_lineage (lt_of_node? hn)
  choose! way hway using hway
  rw [← List.toFinset_card_of_nodup ha.nodup]
  refine Finset.card_le_card_of_injOn (fun p => (sites table (way p), p.2)) ?_ ?_
  · intro p hp
    have hp : p ∈ active := by simpa using hp
    obtain ⟨node, hn⟩ := ha.exists_node p hp
    exact ht.place_mem (hway p hp) hn
  · intro p hp q hq hpq
    have hp : p ∈ active := by simpa using hp
    have hq : q ∈ active := by simpa using hq
    obtain ⟨hs, hn⟩ := Prod.mk.inj hpq
    exact Prod.ext (ht.eq_of_sites_eq (hway p hp) (hway q hq) hs) hn

end CallTree

/-! ### The size of the tree -/

/-- The lists of at most `k` numbers below `n`. -/
def ways (n : Nat) : Nat → Finset (List Nat)
  | 0 => {[]}
  | k + 1 => insert [] ((Finset.range n ×ˢ ways n k).image fun p => p.1 :: p.2)

theorem mem_ways {n k : Nat} {path : List Nat} (hlen : path.length ≤ k) (hlt : ∀ x ∈ path, x < n) :
    path ∈ ways n k := by
  induction k generalizing path with
  | zero => simp [ways, List.eq_nil_of_length_eq_zero (Nat.le_zero.mp hlen)]
  | succ k ih =>
    cases path with
    | nil => simp [ways]
    | cons x path =>
      refine Finset.mem_insert_of_mem (Finset.mem_image.mpr ⟨(x, path), ?_, rfl⟩)
      have hpath : path ∈ ways n k := ih (by simpa using hlen) fun y hy => hlt y (.tail x hy)
      exact Finset.mem_product.mpr ⟨Finset.mem_range.mpr (hlt x (.head path)), hpath⟩

theorem card_ways_le (n k : Nat) : (ways n k).card ≤ (n + 1) ^ k := by
  induction k with
  | zero => simp [ways]
  | succ k ih =>
    calc (ways n (k + 1)).card
        ≤ ((Finset.range n ×ˢ ways n k).image fun p => p.1 :: p.2).card + 1 :=
          Finset.card_insert_le _ _
      _ ≤ (Finset.range n ×ˢ ways n k).card + 1 := by gcongr; exact Finset.card_image_le
      _ = n * (ways n k).card + 1 := by rw [Finset.card_product, Finset.card_range]
      _ ≤ n * (n + 1) ^ k + (n + 1) ^ k := by gcongr; exact Nat.one_le_pow _ _ (by omega)
      _ = (n + 1) ^ (k + 1) := by ring

namespace Resolver

variable {r : Resolver} {g : Graph} {b : Branch} {depth : Nat}

theorem le_foldl_max (xs : List Nat) (start : Nat) :
    start ≤ xs.foldl max start ∧ ∀ x ∈ xs, x ≤ xs.foldl max start := by
  induction xs generalizing start with
  | nil => simp
  | cons y xs ih =>
    obtain ⟨hstart, hxs⟩ := ih (max start y)
    refine ⟨by rw [List.foldl_cons]; omega, fun x hx => ?_⟩
    rcases List.mem_cons.mp hx with rfl | hx
    · rw [List.foldl_cons]; omega
    · exact hxs x hx

theorem length_le_largest {f : MaterialFunction} (hf : f ∈ Engine.functions r) :
    f.graph.nodes.length ≤ Engine.largest r g :=
  (le_foldl_max _ _).2 _ (List.mem_map.mpr ⟨f, hf, rfl⟩)

theorem root_length_le_largest : g.nodes.length ≤ Engine.largest r g := (le_foldl_max _ _).1

/-- The way to a graph within a depth takes no more calls than that, through graphs that are not
larger than the largest. -/
theorem branch_small (h : b ∈ Branch.within (Engine.functions r) g depth) :
    b.sites.length ≤ depth ∧ (∀ n ∈ b.sites, n < Engine.largest r g) ∧
      b.graph.nodes.length ≤ Engine.largest r g := by
  induction depth generalizing b with
  | zero =>
    obtain rfl : b = .root g := by simpa [Branch.within] using h
    exact ⟨Nat.le_refl 0, by simp [Branch.root], root_length_le_largest⟩
  | succ depth ih =>
    rcases List.mem_cons.mp h with rfl | h
    · exact ⟨Nat.zero_le _, by simp [Branch.root], root_length_le_largest⟩
    · obtain ⟨b', hb', hc⟩ := List.mem_flatMap.mp h
      obtain ⟨n, node, f, hn, -, -, hf, -, rfl⟩ := Branch.mem_calls.mp hc
      obtain ⟨hlen, hsites, hnodes⟩ := ih hb'
      have hlt : n < b'.graph.nodes.length := (List.getElem?_eq_some_iff.mp hn).1
      refine ⟨by simpa using hlen, fun m hm => ?_, length_le_largest hf⟩
      rcases List.mem_cons.mp hm with rfl | hm
      · omega
      · exact hsites m hm

/-- The bound of the evaluator exceeds the number of nodes of the tree. -/
theorem card_places_lt_bound (r : Resolver) (g : Graph) : (r.places g).card < Engine.bound r g := by
  have hsub : r.places g ⊆
      ways (Engine.largest r g) r.functionCount ×ˢ Finset.range (Engine.largest r g) := by
    rintro ⟨path, n⟩ hp
    obtain ⟨b, hb, hn⟩ := List.mem_flatMap.mp (List.mem_toFinset.mp hp)
    simp only [List.mem_map, List.mem_range, Prod.mk.injEq] at hn
    obtain ⟨n, hlt, rfl, rfl⟩ := hn
    obtain ⟨hlen, hsites, hnodes⟩ := branch_small hb
    exact Finset.mem_product.mpr ⟨mem_ways hlen hsites, Finset.mem_range.mpr (by omega)⟩
  have hcard := Finset.card_le_card hsub
  rw [Finset.card_product, Finset.card_range] at hcard
  have hways := Nat.mul_le_mul_right (Engine.largest r g)
    (card_ways_le (Engine.largest r g) r.functionCount)
  have hbound : Engine.bound r g =
      Engine.largest r g * (Engine.largest r g + 1) ^ r.functionCount + 1 := rfl
  rw [hbound, Nat.mul_comm (Engine.largest r g)]
  omega

end Resolver

end ShaderGraph
