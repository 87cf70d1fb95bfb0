import ShaderGraph.Proofs.Brackets
import ShaderGraph.Proofs.Building
import ShaderGraph.Proofs.Throughout

/-! Qualities of values. A quality can ask something of the type and of the code of a value. If
literals, locals and the fixed text of the recipes have it and casts keep it, then the recipes of
all node kinds, fed with such values, give and remember such values only. So all values of a run
have it. -/

namespace ShaderGraph

open Text

/-- A quality of values, the types that it allows, and the causes that are reported as long as all
values have it. -/
structure Quality where
  value : Value Local → Prop
  type : ValueType → Prop
  cause : Cause → Prop
  bool : type .bool
  int : type .int
  float (dim : Dim) : type (.float dim)
  widest {a b : ValueType} : type a → type b → type (a.widest b)
  typeOf {v : Value Local} : value v → type v.type
  literal {l : Literal} : type l.type → value (.literal l)
  zero {t : ValueType} : type t → value (.zero t)
  declared {t : ValueType} (r : Local) : type t → value (.expr t [.ref r])
  text {t : String} (h : Operand t.toList) (dim : Dim) : value (.expr (.float dim) t)
  cast {v w : Value Local} {t : ValueType} : value v → type t → v.cast t = .ok w → value w
  mismatch {v : Value Local} {t : ValueType} {e : TypeMismatch} :
    value v → type t → v.cast t = .error e → cause (.ofTypeMismatch e)
  /-- Only failed casts can be ruled out. -/
  other {c : Cause} : (∀ source target, c ≠ .typeMismatch source target) → cause c

/-- The types of the boxes are allowed. -/
def Node.Suits (q : Quality) (n : Node) : Prop := ∀ b ∈ n.boxes, q.type b.type

namespace Quality

variable {q : Quality} {site : Site}

theorem float1 (q : Quality) : q.value (.zero .float1) := q.zero (q.float _)

theorem one (q : Quality) (dim : Dim) : q.value (.one (.float dim)) := by
  cases dim <;> exact q.literal (q.float _)

theorem parameter (q : Quality) (p : Parameter) : q.type p.type ∧ q.value (.literal p.default) := by
  cases p <;> exact ⟨q.float _, q.literal (q.float _)⟩

theorem paramValue? {i : Nat} {v : Value Local} (h : site.paramValue? i = some v) : q.value v := by
  obtain ⟨p, -, hp⟩ := Option.bind_eq_some_iff.mp h
  obtain ⟨l, hl, rfl⟩ := Option.map_eq_some_iff.mp hp
  cases p with
  | bool =>
    cases hl
    exact q.literal q.bool
  | int =>
    cases hl
    exact q.literal q.int
  | float | float2 | float3 | float4 =>
    cases hl
    exact q.literal (q.float _)
  | text | asset => cases hl

theorem boxType (h : site.node.Suits q) (id : BoxId) : q.type (site.boxType id) := by
  unfold Site.boxType
  cases hb : site.node.box? id with
  | none => exact q.float _
  | some b => exact h b (List.mem_of_find?_eq_some hb)

end Quality

/-! ### Recipes -/

/-- Fed with operands that have the quality, the recipe remembers only such values, reports no other
causes than allowed, and gives a result with `Q`. -/
inductive Recipe.Keeps (q : Quality) {α : Type} (Q : α → Prop) : Recipe Local α → Prop
  | done {a} (h : Q a) : Keeps q Q (.done a)
  | operand {box next} (h : ∀ v : Option (Value Local), (∀ w ∈ v, q.value w) → Keeps q Q (next v)) :
      Keeps q Q (.operand box next)
  | declare {type init next} (ht : q.type type)
      (h : ∀ v : Value Local, q.value v → Keeps q Q (next v)) : Keeps q Q (.declare type init next)
  | block {body next} (h : Keeps q Q next) : Keeps q Q (.block body next)
  | comment {text next} (h : Keeps q Q next) : Keeps q Q (.comment text next)
  | report {cause next} (hc : q.cause cause) (h : Keeps q Q next) : Keeps q Q (.report cause next)
  | use {feature next} (h : Keeps q Q next) : Keeps q Q (.use feature next)
  | sample {texture next} (h : Keeps q Q next) : Keeps q Q (.sample texture next)
  | remember {box next} {value : Option (Value Local)} (hv : ∀ w ∈ value, q.value w)
      (h : Keeps q Q next) : Keeps q Q (.remember box value next)
  | claim {input next} (h : ∀ c, Keeps q Q (next c)) : Keeps q Q (.claim input next)

namespace Recipe.Keeps

variable {q : Quality} {α β ι : Type} {Q : α → Prop} {R : β → Prop} {r : Recipe Local α}
  {site : Site} {type : ValueType} {v : Value Local}

theorem bind {f : α → Recipe Local β} (h : r.Keeps q Q) (hf : ∀ a, Q a → (f a).Keeps q R) :
    (r >>= f).Keeps q R := by
  change (r.bind f).Keeps q R
  induction h with
  | done h => exact hf _ h
  | operand _ ih => exact .operand ih
  | declare ht _ ih => exact .declare ht ih
  | block _ ih => exact .block ih
  | comment _ ih => exact .comment ih
  | report hc _ ih => exact .report hc ih
  | use _ ih => exact .use ih
  | sample _ ih => exact .sample ih
  | remember hv _ ih => exact .remember hv ih
  | claim _ ih => exact .claim ih

/-- The same step for every member of a list. -/
theorem mapM {f : ι → Recipe Local α} (xs : List ι) (h : ∀ x ∈ xs, (f x).Keeps q Q) :
    (xs.mapM f).Keeps q fun as => ∀ a ∈ as, Q a := by
  suffices hloop : ∀ as : List α, (∀ a ∈ as, Q a) →
      (List.mapM.loop f xs as).Keeps q fun as => ∀ a ∈ as, Q a from hloop [] (by simp)
  induction xs with
  | nil => exact fun as has => .done (by simpa using has)
  | cons x xs ih =>
    intro as has
    refine (h x List.mem_cons_self).bind fun a ha => ?_
    exact ih (fun y hy => h y (List.mem_cons_of_mem x hy)) (a :: as) (by simpa using ⟨ha, has⟩)

/-! Steps of recipes -/

theorem operand? (box : BoxId) : (Recipe.operand? box).Keeps q fun v => ∀ w ∈ v, q.value w :=
  .operand fun _ h => .done h

theorem newLocal (ht : q.type type) (init : Code Local) :
    (Recipe.newLocal type init).Keeps q q.value :=
  .declare ht fun _ h => .done h

theorem castTo (ht : q.type type) (hv : q.value v) : (Recipe.castTo type v).Keeps q q.value := by
  unfold Recipe.castTo
  split
  next h => exact .done (q.cast hv ht h)
  next h => exact .report (q.mismatch hv ht h) (.done (q.zero ht))

theorem operandOr (box : BoxId) (h : q.value v) : (Recipe.operandOr box v).Keeps q q.value := by
  refine (operand? box).bind fun w hw => .done ?_
  cases w with
  | none => exact h
  | some w => exact hw w rfl

theorem feed (box : BoxId) (ht : q.type type) (h : q.value v) :
    (Recipe.feed box type v).Keeps q q.value :=
  (operandOr box h).bind fun _ hv => castTo ht hv

theorem operandOrParam (h : site.node.Suits q) (box : BoxId) (param : Nat) :
    (Recipe.operandOrParam site box param).Keeps q q.value := by
  refine operandOr box ?_
  cases hp : (site.paramValue? param : Option (Value Local)) with
  | none => exact q.zero (Quality.boxType h box)
  | some v => exact Quality.paramValue? hp

theorem invalidOutput (site : Site) : (Recipe.invalidOutput site).Keeps q q.value :=
  .report (q.other fun _ _ h => by cases h) (.done q.float1)

/-! Recipes of the node kinds -/

theorem constant (h : site.node.Suits q) : (Recipe.constant site).Keeps q q.value := by
  have ht := Quality.boxType h site.box
  unfold Recipe.constant
  cases hp : (site.paramValue? 0 : Option (Value Local)) with
  | some v => exact castTo ht (Quality.paramValue? hp)
  | none => exact .done (q.zero ht)

theorem binary (h : site.node.Suits q) (op : BinaryOp) :
    (Recipe.binary op site).Keeps q q.value := by
  refine (operandOrParam h 0 0).bind fun a ha => (operandOrParam h 1 1).bind fun b hb => ?_
  -- both operands are cast to the wider of their types
  have ht := q.widest (q.typeOf ha) (q.typeOf hb)
  refine (castTo ht ha).bind fun c _ => (castTo ht hb).bind fun d _ => newLocal ?_ _
  cases op with
  | dot => exact q.float _
  | _ => exact ht

theorem unary (h : site.node.Suits q) (function : String) :
    (Recipe.unary function site).Keeps q q.value :=
  (operandOrParam h 0 0).bind fun _ hx => newLocal (q.typeOf hx) _

theorem blendNormals : Recipe.blendNormals.Keeps q q.value := by
  have hzero : q.value (.zero .float3) := q.zero (q.float _)
  refine (operandOr 0 hzero).bind fun _ ha => (castTo (q.float _) ha).bind fun _ _ => ?_
  refine (operandOr 1 hzero).bind fun _ hb => (castTo (q.float _) hb).bind fun _ _ => ?_
  exact newLocal (q.float _) _

theorem cameraDepthFade (h : site.node.Suits q) :
    (Recipe.cameraDepthFade site).Keeps q q.value := by
  refine (operandOrParam h 0 0).bind fun _ hl => (castTo (q.float _) hl).bind fun _ _ => ?_
  refine (operandOrParam h 1 1).bind fun _ ho => (castTo (q.float _) ho).bind fun _ _ => ?_
  refine .comment ((newLocal (q.float _) _).bind fun _ _ => ?_)
  refine (newLocal (q.float _) _).bind fun _ _ => (newLocal (q.float _) _).bind fun _ _ => ?_
  exact (newLocal (q.float _) _).bind fun _ _ => newLocal (q.float _) _

theorem depthFade (site : Site) : (Recipe.depthFade site).Keeps q q.value := by
  have hp : q.value ((site.paramValue? 0).getD (.one .float1)) := by
    cases hp : (site.paramValue? 0 : Option (Value Local)) with
    | none => exact q.one _
    | some v => exact Quality.paramValue? hp
  refine (castTo (q.float _) hp).bind fun _ _ => .comment ?_
  refine (newLocal (q.float _) _).bind fun _ _ => .sample (.use ?_)
  refine (newLocal (q.float _) _).bind fun _ _ => (newLocal (q.float _) _).bind fun _ _ => ?_
  refine (newLocal (q.float _) _).bind fun _ _ => (newLocal (q.float _) _).bind fun _ _ => ?_
  exact newLocal (q.float _) _

theorem terrainLayerWeight (domain : Domain) (site : Site) :
    (Recipe.terrainLayerWeight domain site).Keeps q q.value := by
  unfold Recipe.terrainLayerWeight
  split
  · dsimp only
    split
    next slot component _ =>
      refine .done (q.text ?_ _)
      have hslot := Operand.call (a := "input.Layers".toList) (by decide)
        (operand_toDigits slot).balanced .square
      simpa [Literal.toString_self] using hslot.call (operand_toDigits component).balanced .square
    next => exact .report (q.other fun _ _ h => by cases h) (.done (q.one _))
  · exact .done (q.one _)

theorem interpolate (stage : Stage) : (Recipe.interpolate stage).Keeps q q.value := by
  have hzero : q.value (.zero .float4) := q.zero (q.float _)
  cases stage with
  | vertex => exact (operandOr 0 hzero).bind fun _ h => castTo (q.float _) h
  | pixel =>
    refine .claim fun c => ?_
    cases c with
    | granted slot =>
      refine .use (.done (q.text ?_ _))
      simpa [Literal.toString_self] using Operand.call (a := "input.CustomVSToPS".toList)
        (by decide) (operand_toDigits slot).balanced .square
    | full limit => exact .report (q.other fun _ _ h => by cases h) (.done hzero)
    | unsupported => exact .report (q.other fun _ _ h => by cases h) (.done hzero)

/-! Custom code -/

theorem customOutputs (site : Site) :
    (Recipe.customOutputs site).Keeps q fun outputs => ∀ v ∈ outputs, ∀ w ∈ v, q.value w := by
  refine mapM _ fun i _ => ?_
  split
  · refine (newLocal (q.float _) _).bind fun v hv => .done ?_
    simpa using hv
  · exact .done (by simp)

theorem customInputs : Recipe.customInputs.Keeps q fun inputs => ∀ v ∈ inputs, q.value v := by
  refine mapM _ fun i _ => (operand? _).bind fun v hv => ?_
  cases v with
  | none => exact .done (q.zero (q.float _))
  | some v => exact castTo (q.float _) (hv v rfl)

theorem rememberAll {values : List (Option (Value Local))}
    (h : ∀ v ∈ values, ∀ w ∈ v, q.value w) (start : Nat) :
    ((values.zipIdx start).forM fun (v, i) => setMemory (CustomCode.outputBox i) v).Keeps q
      fun _ => True := by
  induction values generalizing start with
  | nil => exact .done trivial
  | cons v values ih =>
    exact .remember (h v List.mem_cons_self)
      (ih (fun w hw => h w (List.mem_cons_of_mem v hw)) (start + 1))

theorem customBlock (site : Site) (text : String) :
    (Recipe.customBlock site text).Keeps q fun outputs => ∀ v ∈ outputs, ∀ w ∈ v, q.value w := by
  refine .use ((customOutputs site).bind fun outputs ho => customInputs.bind fun inputs _ => ?_)
  exact .comment (.block ((rememberAll ho 0).bind fun _ _ => .done ho))

theorem customCode (site : Site) : (Recipe.customCode site).Keeps q q.value := by
  unfold Recipe.customCode
  split
  · exact invalidOutput site
  next i _ =>
    dsimp only
    split
    · exact .done q.float1
    · refine (customBlock site _).bind fun outputs ho => ?_
      have hv : ∀ v, outputs[i]? = some v → ∀ w ∈ v, q.value w := fun v hv =>
        ho v (List.mem_of_getElem? hv)
      generalize outputs[i]? = a at hv ⊢
      cases site.node.box? site.box with
      | none => exact .done (q.zero (q.float _))
      | some _ =>
        rcases a with _ | _ | v
        · exact .done (q.zero (q.float _))
        · exact .done (q.zero (q.float _))
        · exact .done (hv _ rfl v rfl)

end Recipe.Keeps

open Recipe.Keeps in
/-- The recipe of every box keeps the quality, if the boxes of the node have allowed types. -/
theorem Site.recipe_keeps {q : Quality} (site : Site) (h : site.node.Suits q) (domain : Domain)
    (stage : Stage) : (site.recipe domain stage).Keeps q q.value := by
  unfold Site.recipe
  cases site.node.kind with
  | customCode => exact customCode site
  | cameraDepthFade => exact cameraDepthFade h
  | interpolateVsToPs => exact interpolate stage
  | terrainLayerWeight => exact terrainLayerWeight domain site
  | depthFade => exact depthFade site
  | blendNormals => exact blendNormals
  | bool | integer | float | vector2 | vector3 | vector4 => exact constant h
  | add | subtract | multiply | divide | min | max | dot => exact binary h _
  | abs | saturate | normalize => exact unary h _
  | cameraVector | depth => exact newLocal (q.float _) _
  | vertexColor => exact .use (.done (q.text (by decide) _))
  | terrainHolesMask =>
    dsimp only
    split
    · exact .done (q.text (by decide) _)
    · exact .done (q.one _)
  | preSkinnedLocalPosition | preSkinnedLocalNormal =>
    cases stage with
    | vertex => exact .done (q.text (by decide) _)
    | pixel => exact .done (q.zero (q.float _))
  | view =>
    dsimp only
    split
    · exact .done (q.text (by decide) _)
    · exact .done (q.text (by decide) _)
    · exact .done (q.text (by decide) _)
    · exact invalidOutput site
  | screenSize =>
    dsimp only
    split
    · exact .done (q.text (by decide) _)
    · exact .done (q.text (by decide) _)
    · exact invalidOutput site
  | screenPosition =>
    dsimp only
    split
    · exact .done (q.text (by decide) _)
    · exact newLocal (q.float _) _
    · exact invalidOutput site
  | materialOutput | functionOutput | materialFunction | functionInput =>
    exact .done (q.zero (q.float _))
  | _ => exact .done (q.text (by decide) _)

/-! ### Evaluations -/

/-- Only values with the quality are remembered, and only what it allows was reported. -/
structure State.Has (q : Quality) (s : State) : Prop where
  memory : ∀ p ∈ s.memory, q.value p.2
  diagnostics : ∀ d ∈ s.diagnostics, q.cause d.cause

/-- What is left of a recipe keeps the quality. -/
def Task.Keeps (q : Quality) : Task → Prop
  | recipe _ r => r.Keeps q q.value
  | _ => True

namespace State.Has

variable {q : Quality} {settings : Settings} {s s' : State} {key : BoxKey}

theorem ofGraph (q : Quality) (g : Graph) : (State.ofGraph g).Has q := by
  constructor <;> simp [State.ofGraph]

/-- Changes elsewhere. -/
theorem of_eq (h : s.Has q) (hm : s'.memory = s.memory) (hd : s'.diagnostics = s.diagnostics) :
    s'.Has q :=
  ⟨hm ▸ h.memory, hd ▸ h.diagnostics⟩

theorem withContext (h : s.Has q) (c : CallContext) : { s with context := c }.Has q :=
  h.of_eq rfl rfl

theorem report {cause : Cause} (h : s.Has q) (hc : q.cause cause) (key : BoxKey) :
    (s.report key cause).Has q := by
  refine ⟨(SameCode.report s key cause).memory ▸ h.memory, fun d hd => ?_⟩
  rcases mem_report hd with hd | rfl
  · exact h.diagnostics d hd
  · exact hc

theorem remember {value : Option (Value Local)} (h : s.Has q) (hv : ∀ w ∈ value, q.value w)
    (key : BoxKey) : (s.remember key value).Has q := by
  refine ⟨forall_mem_remember h.memory hv, ?_⟩
  obtain ⟨memory, heq⟩ := s.remember_eq key value
  rw [heq]
  exact h.diagnostics

theorem finish {v : Value Local} (h : s.Has q) (hv : q.value v) (key : BoxKey) :
    (s.finish key v).Has q := by
  refine ⟨forall_mem_finish h.memory hv, ?_⟩
  obtain ⟨memory, heq⟩ := s.finish_eq key v
  rw [heq]
  exact h.diagnostics

theorem made {site : Site} {function : MaterialFunction} {graph : Nat} (h : s.Has q)
    (hi : (s.ask site.node.callee).instantiate site function = (graph, s')) : s'.Has q :=
  h.of_eq (SameCode.instantiate hi).memory (instantiate_diagnostics (s := s.ask _) hi)

/-- Requests of a recipe keep the quality, and what is left of the recipe does. -/
theorem effect {r r' : Recipe Local (Value Local)} (h : s.Has q) (hr : r.Keeps q q.value)
    (he : r.effect? settings key s = some (r', s')) : s'.Has q ∧ r'.Keeps q q.value := by
  cases hr with
  | done => cases he
  | operand => cases he
  | declare ht hn =>
    cases he
    exact ⟨h.of_eq rfl rfl, hn _ (q.declared _ ht)⟩
  | block hn =>
    cases he
    exact ⟨h.of_eq rfl rfl, hn⟩
  | comment hn =>
    cases he
    refine ⟨?_, hn⟩
    split
    · exact h.of_eq rfl rfl
    · exact h
  | report hc hn =>
    cases he
    exact ⟨h.report hc key, hn⟩
  | use hn =>
    cases he
    exact ⟨h.of_eq rfl rfl, hn⟩
  | sample hn =>
    cases he
    refine ⟨?_, hn⟩
    unfold State.sample
    split
    · exact h
    · exact h.of_eq rfl rfl
  | remember hv hn =>
    cases he
    exact ⟨h.remember hv _, hn⟩
  | claim hn =>
    cases he
    refine ⟨?_, hn _⟩
    unfold State.claim
    split
    · exact h
    · split
      · exact h
      · exact h.of_eq rfl rfl

end State.Has

namespace Quality

open CallTree

variable {q : Quality} {settings : Settings} {g : Graph}

theorem boxType_of_tree {s : State} (ht : CallTree settings g s.instances)
    (hg : ∀ node ∈ g.nodes, node.Suits q)
    (hf : ∀ f ∈ Engine.functions settings.resolver, ∀ node ∈ f.graph.nodes, node.Suits q)
    (key : BoxKey) : q.type (s.boxType key) := by
  unfold State.boxType
  rw [State.box?_eq]
  cases hn : node? s.instances key.graph key.node with
  | none => exact q.float _
  | some node =>
    have hsuits := ht.forall_node hg hf hn
    cases hb : node.box? key.box with
    | none => simpa [hb] using q.float _
    | some b => simpa [hb] using hsuits b (List.mem_of_find?_eq_some hb)

/-- Every evaluation keeps the quality. -/
theorem passes (hg : ∀ node ∈ g.nodes, node.Suits q)
    (hf : ∀ f ∈ Engine.functions settings.resolver, ∀ node ∈ f.graph.nodes, node.Suits q) :
    Evaluation.Passes settings g (fun x => x.before.Has q ∧ x.task.Keeps q)
      (fun x => q.value x.value ∧ x.after.Has q) := by
  constructor
  case leaf =>
    rintro x hx hp ⟨h, hr⟩
    cases hx with
    | remembered hm => exact ⟨h.memory (_, _) (State.mem_of_remembered? hm), h⟩
    | absent => exact ⟨q.float1, h⟩
    | reentered =>
      exact ⟨q.zero (boxType_of_tree hp.sound.tree hg hf _),
        h.report (q.other fun _ _ h => by cases h) _⟩
    | @notLoaded site s e =>
      have hnoted : ((s.ask site.node.callee).record (.notLoaded e)).Has q := h.of_eq rfl rfl
      exact ⟨q.float1, hnoted.report (q.other fun _ _ h => by cases h) _⟩
    | @recursive site s =>
      have hasked : (s.ask site.node.callee).Has q := h.of_eq rfl rfl
      exact ⟨q.float1, hasked.report (q.other fun _ _ h => by cases h) _⟩
    | unlisted _ _ _ hi =>
      exact ⟨q.float1, (h.made hi).report (q.other fun _ _ h => by cases h) _⟩
    | unfed _ _ _ hi => exact ⟨q.float1, h.made hi⟩
    | outside | undeclared => exact ⟨q.float1, h.report (q.other fun _ _ h => by cases h) _⟩
    | done =>
      cases hr with
      | done hv => exact ⟨hv, h⟩
  case unary =>
    rintro x y hx hp ⟨h, hr⟩
    cases hx with
    | dispatched => exact ⟨⟨h.of_eq rfl rfl, trivial⟩, fun _ hy => ⟨hy.1, hy.2.finish hy.1 _⟩⟩
    | @plain site =>
      have hsuits := hp.sound.tree.forall_node hg hf (State.node?_of_site? hp.located.2)
      exact ⟨⟨h, site.recipe_keeps hsuits _ _⟩, fun _ hy => hy⟩
    | called _ _ _ hi =>
      exact ⟨⟨(h.made hi).withContext _, trivial⟩, fun _ hy => ⟨hy.1, hy.2.withContext _⟩⟩
    | passed => exact ⟨⟨h.withContext _, trivial⟩, fun _ hy => ⟨hy.1, hy.2.withContext _⟩⟩
    | defaulted =>
      have hsuits := hp.sound.tree.forall_node hg hf (State.node?_of_site? hp.located.2)
      exact ⟨⟨h, Recipe.Keeps.operandOrParam hsuits 1 1⟩, fun _ hy => hy⟩
    | unconnected =>
      cases hr with
      | operand hn => exact ⟨⟨h, hn none (by simp)⟩, fun _ hy => hy⟩
    | effect he => exact ⟨h.effect hr he, fun _ hy => hy⟩
  case binary =>
    rintro x y z hx - ⟨h, hr⟩
    cases hx with
    | connected =>
      cases hr with
      | operand hn =>
        exact ⟨⟨h, trivial⟩, fun _ hy => ⟨hy.2, hn _ (by simpa using hy.1)⟩, fun hz => hz⟩

theorem throughout (hg : ∀ node ∈ g.nodes, node.Suits q)
    (hf : ∀ f ∈ Engine.functions settings.resolver, ∀ node ∈ f.graph.nodes, node.Suits q) :
    Generator.Throughout settings g (State.Has q) (fun x => x.before.Has q ∧ x.task.Keeps q)
      (fun x => q.value x.value ∧ x.after.Has q) := by
  constructor
  case passes => exact passes hg hf
  case request =>
    rintro s x request h hx hs htask
    refine ⟨hx.of_context h.withContext, ?_⟩
    rw [htask]
    cases request with
    | output => trivial
    | input node box =>
      exact Recipe.Keeps.operandOr box (q.zero (boxType_of_tree hx.idle.sound.tree hg hf _))
  case parameter =>
    rintro s x output p ho h hx htask
    refine ⟨hx.of_context h.withContext, ?_⟩
    rw [htask]
    exact Recipe.Keeps.feed _ (q.parameter p).1 (q.parameter p).2
  case interpolant =>
    rintro s s₁ x slot h hslot hext h₁ hx htask
    refine ⟨hx.of_context h₁.withContext, ?_⟩
    rw [htask]
    exact Recipe.Keeps.feed _ (q.float _) (q.zero (q.float _))
  case resume => exact fun s x h => h.2.withContext s.context
  case beginStage => exact fun _ h => ⟨by simp [State.beginStage], h.diagnostics⟩
  case takeWriter => exact fun h => h.of_eq rfl rfl
  case record => exact fun _ h => h.of_eq rfl rfl

/-- All states that a generator goes through have the quality, and so has every value: those of all
evaluations, all answers, and all outputs of the stages. -/
theorem run {gen : Generator} (hidle : gen.state.Idle gen.settings gen.material)
    (h0 : gen.state.Has q) (hg : ∀ node ∈ gen.material.nodes, node.Suits q)
    (hf : ∀ f ∈ Engine.functions gen.settings.resolver, ∀ node ∈ f.graph.nodes, node.Suits q) :
    (∀ s, gen.Reaches s → s.Has q) ∧
    ∀ requests,
      (∀ request, q.value ((gen.after requests).answer request).1) ∧
      (∃ l, Courses gen.settings (gen.allEvaluations requests) l) ∧
      (∀ l, Courses gen.settings (gen.allEvaluations requests) l → ∀ y ∈ l,
        y.task.Keeps q ∧ q.value y.value) ∧
      ∀ m, (gen.after requests).generate.1 = .ok m →
        ∀ o ∈ m.pixel.outputs ++ m.vertex.outputs, q.value o.value := by
  have hall := throughout hg hf
  refine ⟨fun s hs => ?_, fun requests => ?_⟩
  · exact (hall.reaches hidle h0 (fun _ h => h.1) (fun _ h => h.2) hs).2
  · -- requests change neither the settings nor the graph
    obtain ⟨hset, hmat, hidle'⟩ := Generator.after_idle hidle requests
    have hgen : (gen.after requests).state.Idle (gen.after requests).settings
        (gen.after requests).material := by rwa [hset, hmat]
    obtain ⟨l, hl⟩ := Generator.exists_courses hidle requests
    have hP := (hall.run hidle h0 requests hl).2.1
    refine ⟨fun request => ?_, ⟨l, hl⟩, fun l hl y hy => ?_, fun m hm => ?_⟩
    · rw [← hset, ← hmat] at hall
      exact (hall.answer hgen hP request).after.1
    · have hy := (hall.run hidle h0 requests hl).1 y hy
      exact ⟨hy.before.2, hy.after.1⟩
    · rw [← hset, ← hmat] at hall
      exact hall.outputs hgen hP (fun _ h => h.1) hm

end Quality

end ShaderGraph
