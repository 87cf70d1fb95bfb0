import ShaderGraph.Proofs.Requests

/-! Which requests the recipes of nodes make. Custom code that is not blank writes a block and sets
what is remembered of its outputs, after all its inputs are evaluated; no other recipe does either.
Custom code apart, a node has at most one output whose recipe writes anything at all. -/

namespace ShaderGraph

namespace Recipe

variable {ρ α β γ : Type}

/-- Until the recipe satisfies `P`, it neither writes blocks nor sets what is remembered, whatever
answers it gets. -/
inductive Until (P : Recipe ρ α → Prop) : Recipe ρ α → Prop
  | here {r} (h : P r) : Until P r
  | operand {box next} (h : ∀ v, Until P (next v)) : Until P (.operand box next)
  | declare {type init next} (h : ∀ v, Until P (next v)) : Until P (.declare type init next)
  | comment {text next} (h : Until P next) : Until P (.comment text next)
  | report {cause next} (h : Until P next) : Until P (.report cause next)
  | use {feature next} (h : Until P next) : Until P (.use feature next)
  | sample {texture next} (h : Until P next) : Until P (.sample texture next)
  | claim {input next} (h : ∀ c, Until P (next c)) : Until P (.claim input next)

def IsDone (r : Recipe ρ α) : Prop := ∃ a, r = .done a

/-- The recipe neither writes blocks nor sets what is remembered. -/
def Simple (r : Recipe ρ α) : Prop := r.Until IsDone

/-- The recipe writes nothing. -/
inductive Silent : Recipe ρ α → Prop
  | done (a : α) : Silent (.done a)
  | operand {box next} (h : ∀ v, Silent (next v)) : Silent (.operand box next)
  | report {cause next} (h : Silent next) : Silent (.report cause next)
  | use {feature next} (h : Silent next) : Silent (.use feature next)

theorem simple_done (a : α) : (done a : Recipe ρ α).Simple := .here ⟨a, rfl⟩

theorem Simple.bind {r : Recipe ρ α} {f : α → Recipe ρ β} {P : Recipe ρ β → Prop} (h : r.Simple)
    (hf : ∀ a, (f a).Until P) : (r >>= f).Until P := by
  change (r.bind f).Until P
  induction h with
  | here h =>
    obtain ⟨a, rfl⟩ := h
    exact hf a
  | operand _ ih => exact .operand ih
  | declare _ ih => exact .declare ih
  | comment _ ih => exact .comment ih
  | report _ ih => exact .report ih
  | use _ ih => exact .use ih
  | sample _ ih => exact .sample ih
  | claim _ ih => exact .claim ih

theorem pure_bind (a : α) (f : α → Recipe ρ β) : (pure a : Recipe ρ α) >>= f = f a := rfl

theorem bind_assoc (r : Recipe ρ α) (f : α → Recipe ρ β) (g : β → Recipe ρ γ) :
    r >>= f >>= g = r >>= fun a => f a >>= g := by
  change (r.bind f).bind g = r.bind fun a => (f a).bind g
  induction r with
  | done a => rfl
  | operand box next ih => exact congrArg (operand box) (funext ih)
  | declare type init next ih => exact congrArg (declare type init) (funext ih)
  | block body next ih => exact congrArg (block body) ih
  | comment text next ih => exact congrArg (comment text) ih
  | report cause next ih => exact congrArg (report cause) ih
  | use feature next ih => exact congrArg (use feature) ih
  | sample texture next ih => exact congrArg (sample texture) ih
  | remember box value next ih => exact congrArg (remember box value) ih
  | claim input next ih => exact congrArg (claim input) (funext ih)

/-! ### One request of a recipe -/

section Requests

variable {settings : Settings} {key : BoxKey} {s s' : State} {r r' : Recipe Local α}

/-- Requests of simple recipes leave what is remembered alone. -/
theorem Simple.effect (h : r.Simple) (he : r.effect? settings key s = some (r', s')) :
    r'.Simple ∧ s'.memory = s.memory := by
  cases h with
  | here h =>
    obtain ⟨a, rfl⟩ := h
    cases he
  | operand => cases he
  | declare h =>
    cases he
    exact ⟨h _, rfl⟩
  | comment h =>
    cases he
    refine ⟨h, ?_⟩
    split <;> rfl
  | report h =>
    cases he
    exact ⟨h, (State.SameCode.report s key _).memory⟩
  | use h =>
    cases he
    exact ⟨h, rfl⟩
  | sample h =>
    cases he
    exact ⟨h, (State.SameCode.sample s _).memory⟩
  | claim h =>
    cases he
    exact ⟨h _, (State.SameCode.claim s settings key _).memory⟩

theorem Simple.answer {box : BoxId} {next : Option (Value Local) → Recipe Local α}
    (h : (Recipe.operand box next).Simple) (v : Option (Value Local)) : (next v).Simple := by
  cases h with
  | here h =>
    obtain ⟨a, ha⟩ := h
    cases ha
  | operand h => exact h v

theorem Silent.effect (h : r.Silent) (he : r.effect? settings key s = some (r', s')) :
    r'.Silent ∧ s'.writer = s.writer := by
  cases h with
  | done => cases he
  | operand => cases he
  | report h =>
    cases he
    exact ⟨h, (State.SameCode.report s key _).writer⟩
  | use h =>
    cases he
    exact ⟨h, rfl⟩

theorem Silent.answer {box : BoxId} {next : Option (Value Local) → Recipe Local α}
    (h : (Recipe.operand box next).Silent) (v : Option (Value Local)) : (next v).Silent := by
  cases h with
  | operand h => exact h v

end Requests

/-! ### Simple and silent recipes -/

theorem silent_castTo (type : ValueType) (v : Value ρ) : (castTo type v).Silent := by
  unfold castTo
  split
  · exact .done _
  · exact .report (.done _)

theorem silent_operandOr (box : BoxId) (default : Value ρ) : (operandOr box default).Silent :=
  .operand fun _ => .done _

theorem silent_operandOrParam (site : Site) (box : BoxId) (param : Nat) :
    (operandOrParam site box param : Recipe ρ _).Silent :=
  silent_operandOr box _

theorem silent_feed (box : BoxId) (type : ValueType) (default : Value ρ) :
    (feed box type default).Silent :=
  .operand fun _ => silent_castTo type _

theorem silent_invalidOutput (site : Site) : (invalidOutput site : Recipe ρ _).Silent :=
  .report (.done _)

theorem Silent.simple {r : Recipe ρ α} (h : r.Silent) : r.Simple := by
  induction h with
  | done a => exact simple_done a
  | operand _ ih => exact .operand ih
  | report _ ih => exact .report ih
  | use _ ih => exact .use ih

end Recipe

/-- The same code, for recipes that neither write blocks nor claim slots nor set what is
remembered. -/
def CodeRelation.effectless : CodeRelation Local Local :=
  { CodeRelation.same with effects := False }

theorem CodeRelation.effectless_refl (n : Nat) (v : Value Local) : effectless.Values n v v := by
  cases v with
  | literal l => exact .literal l
  | expr type code => exact .expr rfl

theorem Recipe.Related.simple {α : Type} {Q : Nat → α → α → Prop} {n : Nat}
    {r r' : Recipe Local α} (h : r.Related CodeRelation.effectless Q n r') : r.Simple := by
  induction h with
  | done => exact simple_done _
  | operand _ ih =>
    refine .operand fun v => ih _ v v (Nat.le_refl _) ?_
    cases v with
    | none => exact .none
    | some v => exact .some (CodeRelation.effectless_refl _ v)
  | declare _ _ ih => exact .declare fun v => ih v v (CodeRelation.effectless_refl _ v)
  | comment _ ih => exact .comment ih
  | report _ _ ih => exact .report ih
  | use _ ih => exact .use ih
  | sample _ ih => exact .sample ih
  | block he | remember he | claim he => exact he.elim

/-! ### Custom code -/

/-- A custom code node with a text that is not blank. -/
structure Node.IsCustom (n : Node) (text : String) : Prop where
  kind : n.kind = .customCode
  text_eq : ((n.param? 0).bind Param.text?).getD "" = text
  notBlank : Text.isBlank text = false

namespace CustomCode

/-- The number of an output box. -/
def output? (box : BoxId) : Option Nat := (List.range outputCount).find? (outputBox · == box)

theorem output?_some {box : BoxId} {i : Nat} (h : output? box = some i) :
    i < outputCount ∧ outputBox i = box :=
  ⟨List.mem_range.mp (List.mem_of_find?_eq_some h), by simpa using List.find?_some h⟩

theorem output?_outputBox {i : Nat} (h : i < outputCount) : output? (outputBox i) = some i := by
  have hall : (List.range outputCount).all (fun i => output? (outputBox i) == some i) = true := by
    decide
  simpa using List.all_eq_true.mp hall i (List.mem_range.mpr h)

end CustomCode

namespace Recipe

open CustomCode

variable {ρ α : Type}

/-- Sets what is remembered of the outputs, from a given one on, and goes on. -/
def rememberOutputs (next : Recipe ρ α) : List (Option (Value ρ)) → Nat → Recipe ρ α
  | [], _ => next
  | v :: vs, i => remember (outputBox i) v (rememberOutputs next vs (i + 1))

/-- The value of an output, given those of all outputs. -/
def outputValue (site : Site) (outputs : List (Option (Value ρ))) (i : Nat) : Value ρ :=
  if (site.node.box? site.box).isSome then outputs[i]?.join.getD (.zero .float4) else .zero .float4

/-- What custom code does once the locals for its outputs are declared. -/
def customRest (site : Site) (text : String) (i : Nat) (outputs : List (Option (Value ρ))) :
    Recipe ρ (Value ρ) :=
  customInputs >>= fun inputs =>
    comment site.node.kind.name
      (block ((Template.parse text).render (inputs.map fun v => some v.code)
          (outputs.map fun v => v.map (·.code)))
        (rememberOutputs (done (outputValue site outputs i)) outputs 0))

theorem forM_setMemory_bind {f : Unit → Recipe ρ α} (outputs : List (Option (Value ρ)))
    (start : Nat) :
    ((outputs.zipIdx start).forM fun (v, i) => setMemory (outputBox i) v) >>= f =
      rememberOutputs (f ()) outputs start := by
  induction outputs generalizing start with
  | nil => rfl
  | cons v outputs ih => exact congrArg (remember (outputBox start) v) (ih (start + 1))

/-- What custom code does, in the order in which it does it. -/
theorem customCode_eq {site : Site} {text : String} {i : Nat} (hc : site.node.IsCustom text)
    (hi : output? site.box = some i) :
    customCode site = (use .customCode (customOutputs site >>= customRest site text i) :
      Recipe ρ (Value ρ)) := by
  have hfind : (List.range outputCount).find? (outputBox · == site.box) = some i := hi
  unfold customCode
  rw [hfind]
  dsimp only
  rw [hc.text_eq, hc.notBlank]
  refine congrArg (use .customCode) ?_
  refine (bind_assoc (customOutputs site) _ _).trans ?_
  refine congrArg (customOutputs site >>= ·) (funext fun outputs => ?_)
  refine (bind_assoc customInputs _ _).trans ?_
  refine congrArg (customInputs >>= ·) (funext fun inputs => ?_)
  refine congrArg (comment _) (congrArg (block _) ?_)
  refine (bind_assoc (outputs.zipIdx.forM _) _ _).trans ?_
  refine (forM_setMemory_bind outputs 0).trans ?_
  refine congrArg (rememberOutputs · outputs 0) ?_
  rw [pure_bind, outputValue]
  cases site.node.box? site.box with
  | none => rfl
  | some b => rcases outputs[i]? with _ | _ | v <;> rfl

theorem simple_customInputs : (customInputs : Recipe Local _).Simple :=
  (Related.customInputs (n := 0)).simple

/-- The inputs are evaluated before the block is written. -/
theorem customRest_until (site : Site) (text : String) (i : Nat)
    (outputs : List (Option (Value Local))) :
    (customRest site text i outputs).Until fun r => ∃ inputs : List (Value Local),
      r = block ((Template.parse text).render (inputs.map fun v => some v.code)
          (outputs.map fun v => v.map (·.code)))
        (rememberOutputs (done (outputValue site outputs i)) outputs 0) :=
  simple_customInputs.bind fun inputs => .comment (.here ⟨inputs, rfl⟩)

end Recipe

/-! ### All kinds -/

/-- Only the outputs of custom code that is not blank write blocks or set what is remembered. -/
theorem Site.recipe_simple {site : Site}
    (h : ∀ text, site.node.IsCustom text → CustomCode.output? site.box = none) (domain : Domain)
    (stage : Stage) : (site.recipe domain stage : Recipe Local _).Simple := by
  by_cases hpure : site.node.kind.isPure = true
  · exact (site.recipe_related CodeRelation.effectless 0 domain stage
      (fun he => by simp [he] at hpure) fun _ _ => .inr trivial).simple
  · cases hk : site.node.kind with
    | customCode =>
      unfold Site.recipe
      rw [hk]
      dsimp only
      unfold Recipe.customCode
      split
      next => exact (Recipe.silent_invalidOutput site).simple
      next i hi =>
        dsimp only
        split
        next => exact Recipe.simple_done _
        next hblank =>
          have hnone := h _ ⟨hk, rfl, by simpa using hblank⟩
          rw [CustomCode.output?, hi] at hnone
          cases hnone
    | interpolateVsToPs =>
      unfold Site.recipe
      rw [hk]
      cases stage with
      | vertex =>
        exact Recipe.Simple.bind (Recipe.silent_operandOr 0 _).simple
          fun v => (Recipe.silent_castTo _ v).simple
      | pixel =>
        refine .claim fun c => ?_
        cases c with
        | granted => exact .use (Recipe.simple_done _)
        | full => exact .report (Recipe.simple_done _)
        | unsupported => exact .report (Recipe.simple_done _)
    | _ => simp [hk, NodeKind.isPure] at hpure

/-! ### Outputs that write something -/

/-- The recipe of the box writes something, in some material and stage. -/
def Site.Writes (site : Site) : Prop :=
  ∃ domain stage, ¬(site.recipe domain stage : Recipe Local (Value Local)).Silent

namespace NodeKind

def outputBoxes (kind : NodeKind) : List BoxId :=
  (kind.layout.filter (·.direction = .output)).map (·.id)

theorem mem_outputBoxes {kind : NodeKind} {id : BoxId} {d : BoxDecl}
    (h : kind.boxDecl? id = some d) (hd : d.direction = .output) : id ∈ kind.outputBoxes := by
  have hid : d.id = id := by simpa using List.find?_some h
  refine List.mem_map.mpr ⟨d, List.mem_filter.mpr ⟨List.mem_of_find?_eq_some h, ?_⟩, hid⟩
  simpa using hd

/-- Few kinds have more than one output. -/
theorem length_outputBoxes_le (kind : NodeKind) :
    kind = view ∨ kind = screenPosition ∨ kind = screenSize ∨ kind = customCode ∨
      kind = materialFunction ∨ kind.outputBoxes.length ≤ 1 := by
  cases kind <;> decide

end NodeKind

namespace Site.Writes

variable {site site' : Site}

/-- Custom code writes only if it is not blank, for its outputs. -/
theorem custom (h : site.Writes) (hk : site.node.kind = .customCode) :
    ∃ text i, site.node.IsCustom text ∧ CustomCode.output? site.box = some i := by
  obtain ⟨domain, stage, h⟩ := h
  by_contra hno
  refine h ?_
  unfold Site.recipe
  rw [hk]
  dsimp only
  unfold Recipe.customCode
  split
  next => exact Recipe.silent_invalidOutput site
  next i hi =>
    dsimp only
    split
    next => exact .done _
    next hblank => exact absurd ⟨_, i, ⟨hk, rfl, by simpa using hblank⟩, hi⟩ hno

/-- The screen position is written for its second output only. -/
theorem screenPosition (h : site.Writes) (hk : site.node.kind = .screenPosition) :
    site.box = 1 := by
  obtain ⟨domain, stage, h⟩ := h
  by_contra hne
  refine h ?_
  unfold Site.recipe
  rw [hk]
  dsimp only
  split
  next => exact .done _
  next hbox => exact absurd hbox hne
  next => exact Recipe.silent_invalidOutput site

/-- The other kinds with several outputs do not write at all. -/
theorem kind_ne (h : site.Writes) :
    site.node.kind ≠ .view ∧ site.node.kind ≠ .screenSize ∧
      site.node.kind ≠ .materialFunction := by
  obtain ⟨domain, stage, h⟩ := h
  refine ⟨fun hk => h ?_, fun hk => h ?_, fun hk => h ?_⟩
  · unfold Site.recipe
    rw [hk]
    dsimp only
    split
    · exact .done _
    · exact .done _
    · exact .done _
    · exact Recipe.silent_invalidOutput site
  · unfold Site.recipe
    rw [hk]
    dsimp only
    split
    · exact .done _
    · exact .done _
    · exact Recipe.silent_invalidOutput site
  · unfold Site.recipe
    rw [hk]
    exact .done _

/-- Custom code apart, a node has at most one output that writes anything. -/
theorem box_eq (h : site.Writes) (h' : site'.Writes) (hk : site'.node.kind = site.node.kind)
    (hc : site.node.kind ≠ .customCode) (ho : site.box ∈ site.node.kind.outputBoxes)
    (ho' : site'.box ∈ site.node.kind.outputBoxes) : site.box = site'.box := by
  obtain ⟨hview, hsize, hcall⟩ := h.kind_ne
  rcases site.node.kind.length_outputBoxes_le with hv | hp | hs | hcu | hm | hlen
  · exact absurd hv hview
  · rw [h.screenPosition hp, h'.screenPosition (hk.trans hp)]
  · exact absurd hs hsize
  · exact absurd hcu hc
  · exact absurd hm hcall
  · generalize site.node.kind.outputBoxes = boxes at ho ho' hlen
    obtain _ | ⟨box, rest⟩ := boxes
    · cases ho
    · obtain rfl : rest = [] := by simpa using hlen
      rw [List.mem_singleton.mp ho, List.mem_singleton.mp ho']

end Site.Writes

end ShaderGraph
