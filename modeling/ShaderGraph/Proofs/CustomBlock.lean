import ShaderGraph.Proofs.Frame

/-! One evaluation of custom code. It declares a local for each output that is read, evaluates its
inputs, writes one block and sets what is remembered of its outputs, in this order. So whatever the
inputs write stands before the block. -/

namespace ShaderGraph

open CustomCode

/-! ### Steps of a recipe within a course -/

namespace Course

variable {settings : Settings} {key : BoxKey} {s s' : State} {v : Value Local}
  {l : List Evaluation}

/-- A node that neither calls a function nor stands for an argument. -/
theorem of_plain {site : Site} (h : Course settings ⟨.node site, s, v, s'⟩ l)
    (hc : site.node.kind ≠ .materialFunction) (hi : site.node.kind ≠ .functionInput) :
    ∃ l', l = ⟨.node site, s, v, s'⟩ :: l' ∧
      Course settings ⟨.recipe site.key (site.recipe settings.domain s.stage), s, v, s'⟩ l' := by
  cases h with
  | leaf h =>
    cases h with
    | notLoaded hk | recursive hk | unlisted hk | unfed hk => exact absurd hk hc
    | outside hk | undeclared hk => exact absurd hk hi
  | unary h hy =>
    cases h with
    | plain => exact ⟨_, rfl, hy⟩
    | called hk => exact absurd hk hc
    | passed hk | defaulted hk => exact absurd hk hi
  | binary h => cases h

theorem of_done {a : Value Local} (h : Course settings ⟨.recipe key (.done a), s, v, s'⟩ l) :
    v = a ∧ s' = s ∧ l = [⟨.recipe key (.done a), s, v, s'⟩] := by
  cases h with
  | leaf h =>
    cases h with
    | done => exact ⟨rfl, rfl, rfl⟩
  | unary h =>
    cases h with
    | effect he => cases he
  | binary h => cases h

/-- A request that is carried out at once. -/
theorem of_effect {r r' : Recipe Local (Value Local)} {s₁ : State}
    (h : Course settings ⟨.recipe key r, s, v, s'⟩ l)
    (he : r.effect? settings key s = some (r', s₁)) :
    ∃ l', l = ⟨.recipe key r, s, v, s'⟩ :: l' ∧
      Course settings ⟨.recipe key r', s₁, v, s'⟩ l' := by
  cases h with
  | leaf h =>
    cases h with
    | done => cases he
  | unary h hy =>
    cases h with
    | effect he' =>
      cases he'.symm.trans he
      exact ⟨_, rfl, hy⟩
    | unconnected => cases he
  | binary h =>
    cases h with
    | connected => cases he

/-- A request for an operand. -/
theorem of_operand {box : BoxId} {next : Option (Value Local) → Recipe Local (Value Local)}
    (h : Course settings ⟨.recipe key (.operand box next), s, v, s'⟩ l) :
    (∃ l', l = ⟨.recipe key (.operand box next), s, v, s'⟩ :: l' ∧
      Course settings ⟨.recipe key (next none), s, v, s'⟩ l') ∨
    ∃ producer a s₁ l₁ l₂, l = ⟨.recipe key (.operand box next), s, v, s'⟩ :: (l₁ ++ l₂) ∧
      Course settings ⟨.box producer, s, a, s₁⟩ l₁ ∧
      Course settings ⟨.recipe key (next (some a)), s₁, v, s'⟩ l₂ := by
  cases h with
  | leaf h => cases h
  | unary h hy =>
    cases h with
    | unconnected => exact .inl ⟨_, rfl, hy⟩
    | effect he => cases he
  | binary h hy hz =>
    cases h with
    | connected => exact .inr ⟨_, _, _, _, _, rfl, hy, hz⟩

end Course

/-- What goes on for a node from one state of its evaluation to another: nothing changes for it, it
writes no blocks, and the boxes that are evaluated are done in the end. -/
structure Leads (p : Nat × Nat) (s : State) (l : List Evaluation) (s' : State) : Prop where
  same : State.SameAt p s s'
  grows : s.Grows s'
  noBlocks : blocksAt p l = []
  boxes : ∀ z ∈ l, ∀ key, z.task = .box key →
    z.after.writer.statements <+: s'.writer.statements

namespace Leads

variable {settings : Settings} {p : Nat × Nat} {key : BoxKey} {s s' s'' : State}
  {l l' : List Evaluation}

theorem refl (p : Nat × Nat) (s : State) : Leads p s [] s := ⟨.refl p s, .refl s, rfl, by simp⟩

theorem trans (h : Leads p s l s') (h' : Leads p s' l' s'') : Leads p s (l ++ l') s'' := by
  refine ⟨h.same.trans h'.same, h.grows.trans h'.grows, ?_, fun z hz key hk => ?_⟩
  · rw [blocksAt_append, h.noBlocks, h'.noBlocks, List.append_nil]
  · rcases List.mem_append.mp hz with hz | hz
    · exact (h.boxes z hz key hk).trans h'.grows.statements
    · exact h'.boxes z hz key hk

/-- One step that neither evaluates a box nor writes a block. -/
theorem step {x : Evaluation} (hx : ∀ key, x.task ≠ .box key) (hb : x.task.block? = none)
    (hsame : State.SameAt p s s') (hgrows : s.Grows s') : Leads p s [x] s' := by
  refine ⟨hsame, hgrows, List.filter_cons_of_neg (by simp [hb]), fun z hz key hk => ?_⟩
  obtain rfl := List.mem_singleton.mp hz
  exact absurd hk (hx key)

end Leads

namespace Course

/-- Without a change for its node, a recipe is carried out up to one that satisfies `P`. -/
def Reaches (settings : Settings) (P : Recipe Local (Value Local) → Prop) (key : BoxKey) (s : State)
    (v : Value Local) (s' : State) (l : List Evaluation) : Prop :=
  ∃ r s₁ l₁ l₂, P r ∧ l = l₁ ++ l₂ ∧ Leads key.place s l₁ s₁ ∧
    Course settings ⟨.recipe key r, s₁, v, s'⟩ l₂

variable {settings : Settings} {P : Recipe Local (Value Local) → Prop} {key : BoxKey}
  {s s₁ s' : State} {v : Value Local} {r r' : Recipe Local (Value Local)}
  {l l₁ l₂ : List Evaluation}

theorem Reaches.cons (hl : Leads key.place s l₁ s₁) (h : Reaches settings P key s₁ v s' l₂) :
    Reaches settings P key s v s' (l₁ ++ l₂) := by
  obtain ⟨r, s₂, l₃, l₄, hP, rfl, hl', hc⟩ := h
  exact ⟨r, s₂, l₁ ++ l₃, l₄, hP, (List.append_assoc _ _ _).symm, hl.trans hl', hc⟩

/-- A request that is carried out at once and sets nothing. -/
theorem Reaches.effect (h : Course settings ⟨.recipe key r, s, v, s'⟩ l)
    (he : r.effect? settings key s = some (r', s₁)) (hm : s₁.memory = s.memory)
    (hb : (Task.recipe key r).block? = none) (ha : key.place ∈ s.active)
    (hrest : ∀ {l}, Course settings ⟨.recipe key r', s₁, v, s'⟩ l → key.place ∈ s₁.active →
      Reaches settings P key s₁ v s' l) :
    Reaches settings P key s v s' l := by
  have hgrows := State.grows_effect s he
  obtain ⟨l', rfl, h'⟩ := h.of_effect he
  have hsame : State.SameAt key.place s s₁ := .of_eq hm (State.sameLog_effect he).computed
  exact @cons _ _ _ _ _ _ _ [_] _ (.step (fun _ => Task.noConfusion) hb hsame hgrows)
    (hrest h' (hgrows.active ▸ ha))

/-- While its node is under way, a recipe gets to where it is to be. -/
theorem of_until (hr : r.Until P) (h : Course settings ⟨.recipe key r, s, v, s'⟩ l)
    (ha : key.place ∈ s.active) : Reaches settings P key s v s' l := by
  induction hr generalizing s l with
  | here hP => exact ⟨_, s, [], l, hP, rfl, .refl _ _, h⟩
  | @operand box next _ ih =>
    have hstep : Leads key.place s [⟨.recipe key (.operand box next), s, v, s'⟩] s :=
      .step (fun _ => Task.noConfusion) rfl (.refl _ s) (.refl s)
    rcases h.of_operand with ⟨l', rfl, h'⟩ | ⟨producer, a, s₁, l₁, l₂, rfl, hbox, h'⟩
    · exact .cons hstep (ih none h' ha)
    · have hgrows := hbox.runs.grows
      obtain ⟨hsame, hblocks⟩ := hbox.frame ha trivial
      have hinner : Leads key.place s l₁ s₁ :=
        ⟨hsame, hgrows, hblocks, fun z hz _ _ => (hbox.during z hz).ends.statements⟩
      exact .cons hstep (.cons hinner (ih (some a) h' (hgrows.active ▸ ha)))
  | declare _ ih => exact .effect h rfl rfl rfl ha (ih _)
  | comment _ ih =>
    refine .effect h rfl ?_ rfl ha ih
    split <;> rfl
  | report _ ih => exact .effect h rfl (State.SameCode.report s key _).memory rfl ha ih
  | use _ ih => exact .effect h rfl rfl rfl ha ih
  | sample _ ih => exact .effect h rfl (State.SameCode.sample s _).memory rfl ha ih
  | claim _ ih => exact .effect h rfl (State.SameCode.claim s settings key _).memory rfl ha (ih _)

end Course

/-! ### Locals for the outputs -/

namespace Recipe

/-- A local for each output that is read, declared one after the other. -/
def allot (fed : Nat → Bool) : List Nat → Writer → List (Option (Value Local)) × Writer
  | [], w => ([], w)
  | i :: rest, w =>
    if fed i then
      let d := w.declareZero .float4
      (some d.1 :: (allot fed rest d.2).1, (allot fed rest d.2).2)
    else (none :: (allot fed rest w).1, (allot fed rest w).2)

variable {fed : Nat → Bool}

theorem length_allot (fed : Nat → Bool) (is : List Nat) (w : Writer) :
    (allot fed is w).1.length = is.length := by
  induction is generalizing w with
  | nil => rfl
  | cons i rest ih =>
    rw [allot]
    split <;> simp [ih]

theorem prefix_allot (fed : Nat → Bool) (is : List Nat) (w : Writer) :
    w.statements <+: (allot fed is w).2.statements := by
  induction is generalizing w with
  | nil => exact List.prefix_refl _
  | cons i rest ih =>
    rw [allot]
    split
    · exact (List.prefix_append _ _).trans (ih _)
    · exact ih w

/-- An output that is read gets a local of its own, which starts at zero. -/
theorem allot_fed {is : List Nat} {w : Writer} {i j : Nat} (hj : is[j]? = some i)
    (hi : fed i = true) :
    ∃ n, (allot fed is w).1[j]? = some (some (.expr .float4 [.ref n])) ∧ w.nextLocal ≤ n ∧
      .declare n .float4 (Value.zero .float4).code ∈ (allot fed is w).2.statements := by
  induction is generalizing w j with
  | nil => simp at hj
  | cons i' rest ih =>
    rw [allot]
    cases j with
    | zero =>
      obtain rfl : i' = i := by simpa using hj
      rw [if_pos hi]
      refine ⟨w.nextLocal, rfl, Nat.le_refl _, (prefix_allot fed rest _).subset ?_⟩
      exact List.mem_append_right _ (List.mem_singleton_self _)
    | succ j =>
      split
      · obtain ⟨n, hn, hle, hmem⟩ := @ih (w.declareZero .float4).2 j (by simpa using hj)
        refine ⟨n, by simpa using hn, Nat.le_trans ?_ hle, hmem⟩
        exact (List.prefix_append _ _).sublist.countP_le
      · obtain ⟨n, hn, hle, hmem⟩ := @ih w j (by simpa using hj)
        exact ⟨n, by simpa using hn, hle, hmem⟩

theorem allot_unfed {is : List Nat} {w : Writer} {i j : Nat} (hj : is[j]? = some i)
    (hi : fed i = false) : (allot fed is w).1[j]? = some none := by
  induction is generalizing w j with
  | nil => simp at hj
  | cons i' rest ih =>
    rw [allot]
    cases j with
    | zero =>
      obtain rfl : i' = i := by simpa using hj
      simp [hi]
    | succ j => split <;> simpa using ih (by simpa using hj)

theorem nextLocal_le_of_allot {is : List Nat} {w : Writer} {n : Local}
    (h : some (.expr .float4 [.ref n]) ∈ (allot fed is w).1) : w.nextLocal ≤ n := by
  obtain ⟨j, hj⟩ := List.mem_iff_getElem?.mp h
  have hlt : j < is.length := length_allot fed is w ▸ (List.getElem?_eq_some_iff.mp hj).1
  cases hi : fed is[j] with
  | false =>
    have hnone := allot_unfed (w := w) (List.getElem?_eq_getElem hlt) hi
    cases hj.symm.trans hnone
  | true =>
    obtain ⟨m, hm, hle, -⟩ := allot_fed (w := w) (List.getElem?_eq_getElem hlt) hi
    cases hj.symm.trans hm
    exact hle

/-- Different outputs get different locals. -/
theorem allot_pairwise (fed : Nat → Bool) (is : List Nat) (w : Writer) :
    (allot fed is w).1.Pairwise fun a b => ∀ n, a = some (.expr .float4 [.ref n]) → b ≠ a := by
  induction is generalizing w with
  | nil => exact .nil
  | cons i rest ih =>
    rw [allot]
    split
    · refine .cons (fun b hb n hn he => ?_) (ih _)
      have hle := nextLocal_le_of_allot ((he.trans hn) ▸ hb)
      obtain rfl : w.nextLocal = n := by simpa [Writer.declareZero, Writer.declare] using hn
      rw [Writer.declareZero, Writer.declare, Writer.nextLocal_push] at hle
      simp [Statement.declared?] at hle
    · exact .cons (by simp) (ih w)

/-- What custom code does for one of its outputs before anything else. -/
def outputLocal (fed : Nat → Bool) (i : Nat) : Recipe Local (Option (Value Local)) :=
  if fed i then do return some (← newLocal .float4 (Value.zero .float4).code) else return none

end Recipe

/-- Whether some box reads an output. -/
def Site.isRead (site : Site) (i : Nat) : Bool :=
  site.graph.hasConsumers site.key.node (outputBox i)

theorem Recipe.customOutputs_eq (site : Site) :
    customOutputs site = (List.range outputCount).mapM (outputLocal site.isRead) := rfl

namespace Course

variable {settings : Settings} {key : BoxKey} {s s' : State} {v : Value Local}
  {l : List Evaluation}

open Recipe in
/-- The locals are declared one after the other, and the recipe goes on with them. -/
theorem of_outputLocals {fed : Nat → Bool}
    {next : List (Option (Value Local)) → Recipe Local (Value Local)} (is : List Nat)
    (done : List (Option (Value Local)))
    (h : Course settings ⟨.recipe key (List.mapM.loop (outputLocal fed) is done >>= next), s, v, s'⟩
      l) :
    ∃ l₁ l₂, l = l₁ ++ l₂ ∧
      Leads key.place s l₁ { s with writer := (allot fed is s.writer).2 } ∧
      Course settings ⟨.recipe key (next (done.reverse ++ (allot fed is s.writer).1)),
        { s with writer := (allot fed is s.writer).2 }, v, s'⟩ l₂ := by
  induction is generalizing s l done with
  | nil =>
    refine ⟨[], l, rfl, .refl _ _, ?_⟩
    rw [allot, List.append_nil]
    exact h
  | cons i rest ih =>
    rw [List.mapM.loop, outputLocal] at h
    rw [allot]
    split at h
    next hfed =>
      -- one local more, and the rest from there
      obtain ⟨l', rfl, h'⟩ := h.of_effect rfl
      obtain ⟨l₁, l₂, rfl, hl, hc⟩ := ih (some (s.writer.declareZero .float4).1 :: done) h'
      rw [if_pos hfed]
      dsimp only at hl hc ⊢
      refine ⟨_ :: l₁, l₂, rfl, (Leads.step (fun _ => Task.noConfusion) rfl ?_ ?_).trans hl, ?_⟩
      · exact .of_eq rfl rfl
      · exact State.grows_push s _
      · rw [List.reverse_cons, List.append_assoc] at hc
        exact hc
    next hfed =>
      obtain ⟨l₁, l₂, rfl, hl, hc⟩ := ih (none :: done) h
      rw [if_neg hfed]
      dsimp only at hl hc ⊢
      refine ⟨l₁, l₂, rfl, hl, ?_⟩
      rw [List.reverse_cons, List.append_assoc] at hc
      exact hc

end Course

/-! ### Outputs that are remembered -/

namespace State

/-- What is remembered of the outputs of custom code is set, from a given output on. -/
def rememberAll (key : BoxKey) : List (Option (Value Local)) → Nat → State → State
  | [], _, s => s
  | v :: rest, i, s => rememberAll key rest (i + 1) (s.remember (key.sibling (outputBox i)) v)

variable {key key' : BoxKey} {s : State}

theorem rememberAll_eq (key : BoxKey) (outputs : List (Option (Value Local))) (i : Nat)
    (s : State) : ∃ memory, rememberAll key outputs i s = { s with memory } := by
  induction outputs generalizing i s with
  | nil => exact ⟨s.memory, rfl⟩
  | cons v rest ih =>
    obtain ⟨memory, hm⟩ := s.remember_eq (key.sibling (outputBox i)) v
    obtain ⟨memory', hm'⟩ := ih (i + 1) { s with memory }
    exact ⟨memory', by rw [rememberAll, hm, hm']⟩

theorem remembered?_rememberAll_of_ne {outputs : List (Option (Value Local))} {i : Nat}
    (h : ∀ j < outputs.length, key' ≠ key.sibling (outputBox (i + j))) :
    (rememberAll key outputs i s).remembered? key' = s.remembered? key' := by
  induction outputs generalizing i s with
  | nil => rfl
  | cons v rest ih =>
    have hrest : ∀ j < rest.length, key' ≠ key.sibling (outputBox (i + 1 + j)) := by
      intro j hj
      have hne := h (j + 1) (by simpa using hj)
      rwa [show i + (j + 1) = i + 1 + j by omega] at hne
    rw [rememberAll, ih hrest]
    exact remembered?_remember_of_ne s (h 0 (by simp)) v

theorem outputBox_injective {i j : Nat} (hi : i < outputCount) (hj : j < outputCount)
    (h : outputBox i = outputBox j) : i = j := by
  have hsame := output?_outputBox hi
  rw [h, output?_outputBox hj] at hsame
  exact (Option.some.inj hsame).symm

theorem remembered?_rememberAll {outputs : List (Option (Value Local))} {i j : Nat}
    (hb : ∀ k < outputCount, (s.box? (key.sibling (outputBox k))).isSome)
    (hi : i + outputs.length ≤ outputCount) (hj : j < outputs.length) :
    (rememberAll key outputs i s).remembered? (key.sibling (outputBox (i + j))) =
      outputs[j]?.join := by
  induction outputs generalizing i j s with
  | nil => simp at hj
  | cons v rest ih =>
    rw [List.length_cons] at hi hj
    rw [rememberAll]
    cases j with
    | zero =>
      -- the outputs that follow are others
      rw [remembered?_rememberAll_of_ne]
      · exact remembered?_remember_self (hb i (by omega)) v
      · intro j hj he
        have hsame := outputBox_injective (by omega) (by omega) (congrArg BoxKey.box he)
        omega
    | succ j =>
      obtain ⟨memory, hm⟩ := s.remember_eq (key.sibling (outputBox i)) v
      have hrest := @ih (s.remember (key.sibling (outputBox i)) v) (i + 1) j (by rw [hm]; exact hb)
        (by omega) (by omega)
      rw [show i + (j + 1) = i + 1 + j by omega]
      simpa using hrest

end State

namespace Course

variable {settings : Settings} {key : BoxKey} {s s' : State} {v a : Value Local}
  {l : List Evaluation}

/-- All outputs are remembered, without further blocks or boxes. -/
theorem of_rememberOutputs {outputs : List (Option (Value Local))} {i : Nat}
    (h : Course settings ⟨.recipe key (Recipe.rememberOutputs (.done a) outputs i), s, v, s'⟩ l) :
    v = a ∧ s' = State.rememberAll key outputs i s ∧ blocksAt key.place l = [] ∧
      ∀ z ∈ l, ∀ k, z.task ≠ .box k := by
  induction outputs generalizing i s l with
  | nil =>
    obtain ⟨rfl, rfl, rfl⟩ := h.of_done
    exact ⟨rfl, rfl, rfl, by simp⟩
  | cons w rest ih =>
    obtain ⟨l', rfl, h'⟩ := h.of_effect rfl
    obtain ⟨rfl, rfl, hblocks, hboxes⟩ := ih h'
    refine ⟨rfl, rfl, hblocks, fun z hz k => ?_⟩
    rcases List.mem_cons.mp hz with rfl | hz
    · exact Task.noConfusion
    · exact hboxes z hz k

end Course

/-! ### The evaluation as a whole -/

/-- The evaluation `w` of custom code with the course `l`: `y` is where its block is written, with
these values of the outputs. -/
structure Evaluation.Customizes (w : Evaluation) (site : Site) (text : String)
    (l : List Evaluation) (y : Evaluation) (outputs : List (Option (Value Local))) : Prop where
  node : w.task = .node site
  custom : site.node.IsCustom text
  only : blocksAt site.key.place l = [y]
  body : ∃ inputs : List (Value Local), y.task.block? = some (site.key,
    (Template.parse text).render (inputs.map fun v => some v.code)
      (outputs.map fun v => v.map (·.code)))
  /-- The locals are declared before the block. -/
  allotted : ∃ writer : Writer,
    outputs = (Recipe.allot site.isRead (List.range outputCount) writer).1 ∧
    (Recipe.allot site.isRead (List.range outputCount) writer).2.statements <+:
      y.before.writer.statements
  /-- All boxes are evaluated before the block. -/
  boxes : ∀ z ∈ l, ∀ key, z.task = .box key →
    z.after.writer.statements <+: y.before.writer.statements

namespace Evaluation.Customizes

variable {w y : Evaluation} {site : Site} {text : String} {l : List Evaluation}
  {outputs : List (Option (Value Local))} {j k : Nat} {n : Local}

theorem length (h : w.Customizes site text l y outputs) : outputs.length = outputCount := by
  obtain ⟨writer, rfl, -⟩ := h.allotted
  rw [Recipe.length_allot, List.length_range]

/-- An output that is read is a local, zero before the block. -/
theorem fed (h : w.Customizes site text l y outputs) (hk : k < outputCount)
    (hr : site.isRead k = true) :
    ∃ n, outputs[k]? = some (some (.expr .float4 [.ref n])) ∧
      .declare n .float4 (Value.zero .float4).code ∈ y.before.writer.statements := by
  obtain ⟨writer, rfl, hp⟩ := h.allotted
  obtain ⟨n, hn, -, hmem⟩ := Recipe.allot_fed (w := writer) (List.getElem?_range hk) hr
  exact ⟨n, hn, hp.subset hmem⟩

theorem unfed (h : w.Customizes site text l y outputs) (hk : k < outputCount)
    (hr : site.isRead k = false) : outputs[k]? = some none := by
  obtain ⟨writer, rfl, -⟩ := h.allotted
  exact Recipe.allot_unfed (List.getElem?_range hk) hr

/-- Different outputs have different locals. -/
theorem distinct (h : w.Customizes site text l y outputs)
    (hj : outputs[j]? = some (some (.expr .float4 [.ref n])))
    (hk : outputs[k]? = some (some (.expr .float4 [.ref n]))) : j = k := by
  obtain ⟨writer, rfl, -⟩ := h.allotted
  have hpair := List.pairwise_iff_getElem.mp
    (Recipe.allot_pairwise site.isRead (List.range outputCount) writer)
  obtain ⟨hj', hj⟩ := List.getElem?_eq_some_iff.mp hj
  obtain ⟨hk', hk⟩ := List.getElem?_eq_some_iff.mp hk
  rcases Nat.lt_trichotomy j k with hlt | heq | hlt
  · exact absurd (hk.trans hj.symm) (hpair j k hj' hk' hlt n hj)
  · exact heq
  · exact absurd (hj.trans hk.symm) (hpair k j hk' hj' hlt n hk)

end Evaluation.Customizes

open Recipe in
/-- Custom code writes one block, and then all its outputs are remembered. -/
theorem Course.of_custom {settings : Settings} {site : Site} {text : String} {i : Nat}
    {s s' : State} {v : Value Local} {l : List Evaluation}
    (h : Course settings ⟨.node site, s, v, s'⟩ l) (hc : site.node.IsCustom text)
    (hi : output? site.box = some i) (ha : site.key.place ∈ s.active) :
    ∃ y outputs s₁, Evaluation.Customizes ⟨.node site, s, v, s'⟩ site text l y outputs ∧
      v = outputValue site outputs i ∧ State.SameAt site.key.place s s₁ ∧ s.Grows s₁ ∧
      s' = State.rememberAll site.key outputs 0 s₁ := by
  have hrecipe : (site.recipe settings.domain s.stage : Recipe Local _) =
      use .customCode (customOutputs site >>= customRest site text i) := by
    rw [← customCode_eq hc hi]
    unfold Site.recipe
    rw [hc.kind]
  obtain ⟨l₀, rfl, h₀⟩ := h.of_plain (by simp [hc.kind]) (by simp [hc.kind])
  rw [hrecipe] at h₀
  obtain ⟨l₁, rfl, h₁⟩ := h₀.of_effect rfl
  -- the locals, then the inputs
  rw [customOutputs_eq] at h₁
  obtain ⟨la, l₂, rfl, hla, h₂⟩ := of_outputLocals (List.range outputCount) [] h₁
  obtain ⟨out, hout⟩ : ∃ out, allot site.isRead (List.range outputCount)
    (s.use .customCode).writer = out := ⟨_, rfl⟩
  rw [hout] at hla h₂
  obtain ⟨r, s₁, lb, l₃, ⟨inputs, hr⟩, rfl, hlb, h₃⟩ := of_until (customRest_until _ _ _ _) h₂ ha
  -- the block, then the outputs
  obtain ⟨l₄, rfl, h₄⟩ := h₃.of_effect (by rw [hr]; rfl)
  obtain ⟨hv, hs', hblocks, hboxes⟩ := h₄.of_rememberOutputs
  have hnode : Leads site.key.place s [⟨.node site, s, v, s'⟩] s :=
    .step (fun _ => Task.noConfusion) rfl (.refl _ s) (.refl s)
  have huse : Leads site.key.place s [⟨.recipe site.key (use .customCode
      (customOutputs site >>= customRest site text i)), s, v, s'⟩] (s.use .customCode) :=
    .step (fun _ => Task.noConfusion) rfl (.of_eq rfl rfl) { State.Grows.refl s with }
  have hlead := (hnode.trans huse).trans (hla.trans hlb)
  have hbody : (Task.recipe site.key r).block? = some (site.key,
      (Template.parse text).render (inputs.map fun v => some v.code)
        (out.1.map fun v => v.map (·.code))) := by
    rw [hr]
    rfl
  have hlist (w x y : Evaluation) :
      w :: x :: (la ++ (lb ++ y :: l₄)) = [w] ++ [x] ++ (la ++ lb) ++ y :: l₄ := by simp
  rw [hlist]
  refine ⟨⟨.recipe site.key r, s₁, v, s'⟩, out.1, _,
    ⟨rfl, hc, ?only, ⟨inputs, hbody⟩, ⟨_, congrArg Prod.fst hout.symm, ?locals⟩, ?boxes⟩, hv, ?same,
    ?grows, hs'⟩
  case only =>
    rw [blocksAt_append, hlead.noBlocks, List.nil_append, blocksAt, List.filter_cons_of_pos]
    · exact congrArg (List.cons _) hblocks
    · simp [hbody]
  case locals =>
    rw [hout]
    exact hlb.grows.statements
  case boxes =>
    intro z hz key hk
    rcases List.mem_append.mp hz with hz | hz
    · exact hlead.boxes z hz key hk
    · rcases List.mem_cons.mp hz with rfl | hz
      · cases hk
      · exact absurd hk (hboxes z hz key)
  case same => exact hlead.same.trans (.of_eq rfl rfl)
  case grows => exact hlead.grows.trans (State.grows_push s₁ _)

end ShaderGraph
