import ShaderGraph.Proofs.Reference
import ShaderGraph.Proofs.Scope

/-! Locals spelled out. Replacing locals by their trees respects everything that recipes do with
code, and once the statements of a stage are well scoped, the tree of a local is the one made from
the initialiser with which it was declared, whatever is written after it. -/

namespace ShaderGraph

/-! ### Code and its expansion -/

namespace Code

variable {tree tree' : Local → Option Tree} {c : Code Local} {d : Code Tree}

theorem expand_eq_some :
    c.expand tree = some d ↔ List.Forall₂ (fun x y => x.expand tree = some y) c d := by
  induction c generalizing d with
  | nil => simp [expand, eq_comm]
  | cons x c ih =>
    simp only [expand, List.mapM_cons, bind, pure, Option.bind_eq_some_iff, Option.some.injEq,
      List.forall₂_cons_left_iff] at ih ⊢
    constructor
    · rintro ⟨y, hy, d, hd, rfl⟩
      exact ⟨y, d, hy, ih.mp hd, rfl⟩
    · rintro ⟨y, d, hy, hd, rfl⟩
      exact ⟨y, hy, d, ih.mpr hd, rfl⟩

theorem expand_ofString (t : String) :
    (ofString t : Code Local).expand tree = some (ofString t) := by
  rw [expand_eq_some, ofString, ofString, List.forall₂_map_left_iff, List.forall₂_map_right_iff]
  exact List.forall₂_same.mpr fun _ _ => rfl

/-- The expansion depends on the trees of the locals in the code only. -/
theorem expand_congr (h : ∀ r, .ref r ∈ c → tree r = tree' r) : c.expand tree = c.expand tree' := by
  unfold expand
  induction c with
  | nil => rfl
  | cons x c ih =>
    have hx : x.expand tree = x.expand tree' := by
      cases x with
      | char c => rfl
      | ref r => rw [Atom.expand, Atom.expand, h r List.mem_cons_self]
    rw [List.mapM_cons, List.mapM_cons, hx, ih fun r hr => h r (List.mem_cons_of_mem x hr)]

/-- A tree stands where a local stood, as far as brackets and words are concerned. -/
theorem isOperandFrom_expand (h : List.Forall₂ (fun x y => Atom.expand tree x = some y) c d)
    (depth : Int) : isOperandFrom depth c = isOperandFrom depth d := by
  induction h generalizing depth with
  | nil => rfl
  | @cons x y c d hxy _ ih =>
    cases x with
    | char x =>
      obtain rfl : .char x = y := Option.some.inj hxy
      simp only [isOperandFrom, ih]
    | ref r =>
      obtain ⟨t, -, rfl⟩ := Option.map_eq_some_iff.mp hxy
      simp only [isOperandFrom, ih]

end Code

/-- Code over the first locals, and the same code with their trees. -/
def CodeRelation.expanding (tree : Local → Option Tree) : CodeRelation Local Tree where
  rel n c d := (∀ r, .ref r ∈ c → r < n) ∧ c.expand tree = some d
  effects := False
  names := True
  mono hmn h := ⟨fun r hr => Nat.lt_of_lt_of_le (h.1 r hr) hmn, h.2⟩
  anyText t _ := ⟨by simp [Code.ofString], Code.expand_ofString t⟩
  append ha hb _ := by
    refine ⟨fun r hr => (List.mem_append.mp hr).elim (ha.1 r) (hb.1 r), ?_⟩
    exact Code.expand_eq_some.mpr
      (List.rel_append (Code.expand_eq_some.mp ha.2) (Code.expand_eq_some.mp hb.2))
  isOperand h := Code.isOperandFrom_expand (Code.expand_eq_some.mp h.2) 0

theorem CodeRelation.Values.expand {tree : Local → Option Tree} {n : Nat} {v : Value Local}
    {t : Value Tree} (h : (CodeRelation.expanding tree).Values n v t) : v.expand tree = some t := by
  cases h with
  | literal l => rfl
  | @expr type c d h => rw [Value.expand, h.2, Option.map_some]

/-! ### The tree of a declared local -/

namespace Tree

theorem ofLocal_append {later earlier : List Statement} {r : Local}
    (h : ∀ st ∈ later, st.declared? ≠ some r) :
    ofLocal (later ++ earlier) r = ofLocal earlier r := by
  induction later with
  | nil => rfl
  | cons st later ih =>
    obtain ⟨hst, hlater⟩ := List.forall_mem_cons.mp h
    cases st with
    | declare name type init =>
      rw [List.cons_append, ofLocal, if_neg fun hn => hst (congrArg some hn), ih hlater]
    | block => exact ih hlater
    | comment => exact ih hlater

end Tree

namespace Writer

variable {w p : Writer} {r : Local}

theorem length_declared (w : Writer) : w.declared.length = w.nextLocal := by
  unfold declared nextLocal
  rw [List.length_filterMap_eq_countP]
  refine List.countP_congr fun st _ => ?_
  cases st <;> simp [Statement.declared?, Statement.isDeclaration]

/-- Earlier statements declare the first locals. -/
theorem mem_declared_of_lt (h : p.statements <+: w.statements) (hw : w.WellScoped)
    (hr : r < p.nextLocal) : r ∈ p.declared := by
  have hp : p.declared <+: w.declared := h.filterMap _
  have hlen := hp.length_le
  rw [hw.inOrder, List.length_range, length_declared] at hlen
  rw [List.prefix_iff_eq_take.mp hp, hw.inOrder, List.take_range, List.mem_range, length_declared]
  exact Nat.lt_min.mpr ⟨hr, Nat.lt_of_lt_of_le hr hlen⟩

/-- What is declared early on keeps its tree. -/
theorem tree_earlier (h : p.statements <+: w.statements) (hw : w.WellScoped)
    (hr : r ∈ p.declared) : w.tree r = p.tree r := by
  obtain ⟨rest, hrest⟩ := h
  have hnodup : (p.declared ++ declared ⟨rest⟩).Nodup := by
    have hd : w.declared = p.declared ++ declared ⟨rest⟩ := by
      rw [declared, ← hrest, List.filterMap_append]
      rfl
    rw [← hd, hw.inOrder]
    exact List.nodup_range
  rw [tree, ← hrest, List.reverse_append, Tree.ofLocal_append]
  · rfl
  · intro st hst hd
    refine (List.nodup_append.mp hnodup).2.2 r hr r ?_ rfl
    exact List.mem_filterMap.mpr ⟨st, List.mem_reverse.mp hst, hd⟩

/-- The tree of a local is made from the initialiser that it was declared with. -/
theorem tree_declare {type : ValueType} {init : Code Local} {init' : Code Tree}
    (h : (p.declare type init).2.statements <+: w.statements) (hw : w.WellScoped)
    (hi : (CodeRelation.expanding w.tree).rel p.nextLocal init init') :
    w.tree p.nextLocal = some (.written type init') := by
  have hp : p.statements <+: w.statements := (List.prefix_append _ _).trans h
  have hinit : init.expand p.tree = some init' := by
    rw [← hi.2]
    refine Code.expand_congr fun r hr => ?_
    exact (tree_earlier hp hw (mem_declared_of_lt hp hw (hi.1 r hr))).symm
  rw [tree_earlier h hw (by simp [declare, declared_push, Statement.declared?]), tree]
  simp only [declare, push, List.reverse_append, List.reverse_singleton, List.singleton_append,
    Tree.ofLocal, if_true]
  exact congrArg (Option.map _) hinit

end Writer

end ShaderGraph
