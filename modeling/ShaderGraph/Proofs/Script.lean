import Mathlib.Data.List.Infix
import ShaderGraph.Proofs.Effects
import ShaderGraph.Proofs.Scope

/-! Scripts of nodes: what evaluating a box does, step by step and without the values. The script of
a box depends on its node, on whether its outputs are read and on the stage alone; only after an
interpolant slot was asked for does it depend on the answer. Notes on problems are no part of it. -/

namespace ShaderGraph

/-! ### Text that does not name the depth texture -/

namespace Text

/-- Every capital D in the text has a letter other than e after it. So the word Depth is nowhere in
it, whatever text is put before and after. -/
def depthless (text : List Char) : Bool :=
  text.tails.all fun t => t.head? != some 'D' || t.tail.head?.any (· != 'e')

@[simp] theorem depthless_nil : depthless [] = true := rfl

@[simp] theorem depthless_cons (c : Char) (text : List Char) :
    depthless (c :: text) = ((c != 'D' || text.head?.any (· != 'e')) && depthless text) := by
  have hhead : ((c :: text).head? != some 'D') = (c != 'D') := by simp [bne]
  rw [depthless, List.tails_cons, List.all_cons, hhead]
  rfl

theorem depthless_append {a b : List Char} (ha : depthless a = true) (hb : depthless b = true) :
    depthless (a ++ b) = true := by
  induction a with
  | nil => exact hb
  | cons c a ih =>
    rw [depthless_cons, Bool.and_eq_true, Bool.or_eq_true] at ha
    rw [List.cons_append, depthless_cons, Bool.and_eq_true, Bool.or_eq_true]
    refine ⟨ha.1.imp_right fun hd => ?_, ih ha.2⟩
    cases a with
    | nil => cases hd
    | cons d a => exact hd

theorem depthless_of_not_mem {a : List Char} (h : 'D' ∉ a) : depthless a = true := by
  induction a with
  | nil => rfl
  | cons c a ih =>
    obtain ⟨hc, ha⟩ := not_or.mp (List.mem_cons.not.mp h)
    have hne : (c != 'D') = true := bne_iff_ne.mpr (Ne.symm hc)
    rw [depthless_cons, hne, ih ha]
    rfl

/-- Such text does not name any texture of the scene. -/
theorem not_infix_of_depthless {a : List Char} (h : depthless a = true) (texture : SceneTexture) :
    ¬texture.shaderName.toList <:+: a := by
  cases texture
  rintro ⟨before, after, rfl⟩
  have hsuffix {u w : List Char} (hw : depthless (u ++ w) = true) : depthless w = true := by
    induction u with
    | nil => exact hw
    | cons c u ih =>
      rw [List.cons_append, depthless_cons, Bool.and_eq_true] at hw
      exact ih hw.2
  rw [List.append_assoc] at h
  have hname := hsuffix h
  simp [SceneTexture.shaderName] at hname

end Text

theorem Literal.not_mem_text (l : Literal) : 'D' ∉ l.text.toList := by
  have hliteral := not_mem_literalText (c := 'D') (by decide) (by decide)
  have hdigits := not_mem_toDigits (c := 'D') (by decide)
  cases l with
  | bool b => cases b <;> decide
  | int i => cases h : i.toInt <;> simp [text, toString, Int.repr, h, hdigits]
  | uint u => simp [text, hdigits, toString_self]
  | float x => exact hliteral x
  | float2 x y => simp [text, hliteral, toString_self]
  | float3 x y z => simp [text, hliteral, toString_self]
  | float4 x y z w => simp [text, hliteral, toString_self]

/-- The text of the code does not name the depth texture. -/
def Code.Depthless (c : Code Local) : Prop := Text.depthless c.source.toList = true

namespace Code.Depthless

variable {a b c : Code Local}

theorem text {t : String} (h : Text.depthless t.toList = true) : Depthless (Code.ofString t) := by
  rwa [Depthless, Code.toList_source_ofString]

theorem append (ha : a.Depthless) (hb : b.Depthless) : Depthless (a ++ b) := by
  rw [Depthless, Code.toList_source_append]
  exact Text.depthless_append ha hb

theorem operand (h : c.Depthless) : c.operand.Depthless := by
  unfold Code.operand
  split
  · exact h
  · exact ((text (by decide)).append h).append (text (by decide))

theorem convert (conversion : Conversion) (target : ValueType) (h : c.Depthless) :
    (conversion.apply target c).Depthless := by
  have htype : Text.depthless s!"({target.name})(".toList = true ∧
      Text.depthless s!"{target.name}(".toList = true := by
    rcases target with _ | _ | _ | (_ | _ | _ | _) | _ | _ <;> decide
  have hswizzle (count : Nat) : 'D' ∉ (Conversion.swizzle count).toList := by
    rw [Conversion.swizzle, String.toList_ofList]
    exact fun h => absurd (List.mem_of_mem_take h) (by decide)
  cases conversion with
  | convert => exact ((text htype.1).append h).append (text (by decide))
  | first => exact h.operand.append (text (by decide))
  | convertFirst => exact ((text htype.1).append h.operand).append (text (by decide))
  | leading count =>
    refine h.operand.append (text (Text.depthless_of_not_mem ?_))
    simp [Literal.toString_self, hswizzle]
  | extend count zeros =>
    refine ((text htype.2).append h.operand).append (text (Text.depthless_of_not_mem ?_))
    simp [Literal.toString_self, hswizzle, String.toList_join]

end Code.Depthless

def Value.Depthless (v : Value Local) : Prop := v.code.Depthless

namespace Value.Depthless

variable {v w : Value Local}

theorem literal (l : Literal) : Depthless (.literal l) :=
  .text (Text.depthless_of_not_mem l.not_mem_text)

theorem text {t : String} (type : ValueType) (h : Text.depthless t.toList = true) :
    Depthless (.expr type t) :=
  Code.Depthless.text h

theorem ref (type : ValueType) (n : Local) : Depthless (.expr type [.ref n]) := by
  have hname : 'D' ∉ (Local.name n).toList := by
    simp [Local.name_toList, Literal.not_mem_toDigits (c := 'D') (by decide)]
  rw [Depthless, Code.Depthless, Code.toList_source]
  simpa [Value.code, Atom.chars] using Text.depthless_of_not_mem hname

theorem zero (type : ValueType) : Depthless (.zero type) := by
  cases type with
  | matrix | texture => exact text _ (by decide)
  | _ => exact literal _

theorem one (type : ValueType) : Depthless (.one type) := by
  cases type with
  | matrix | texture => exact text _ (by decide)
  | _ => exact literal _

theorem getD {v : Option (Value Local)} (h : ∀ u ∈ v, u.Depthless) (hw : w.Depthless) :
    (v.getD w).Depthless := by
  cases v with
  | none => exact hw
  | some u => exact h u rfl

theorem paramValue? (site : Site) (i : Nat) :
    ∀ v ∈ (site.paramValue? i : Option (Value Local)), v.Depthless := by
  intro v hv
  obtain ⟨p, -, hp⟩ := Option.bind_eq_some_iff.mp hv
  obtain ⟨l, -, rfl⟩ := Option.map_eq_some_iff.mp hp
  exact literal l

theorem cast {target : ValueType} (h : v.Depthless) (hw : v.cast target = .ok w) :
    w.Depthless := by
  unfold Value.cast at hw
  split at hw
  · cases hw
    exact h
  · split at hw
    · split at hw
      · cases hw
        exact literal _
      · cases hw
        exact Code.Depthless.convert _ _ h
    · cases hw

end Value.Depthless

/-! ### Scripts -/

/-- A step of a script. -/
inductive Act where
  /-- The value of an input box is asked for. -/
  | read (box : BoxId)
  /-- A local is declared; only an initialiser that is marked can name a texture of the scene. -/
  | declare (marked : Bool)
  | block
  | comment (text : String)
  | use (feature : Feature)
  | sample (texture : SceneTexture)
  /-- Something is remembered, or forgotten, of a box of the node. -/
  | remember
  | claim
  deriving DecidableEq

/-- What follows once a slot has been asked for. -/
def Claim.acts : Claim → List Act
  | granted _ => [.use .interpolants]
  | full _ => []
  | unsupported => []

/-- The recipe follows the script, whatever answers it gets, and ends with a result that satisfies
`Q`. -/
inductive Recipe.Plays {α : Type} (Q : α → Prop) : List Act → Recipe Local α → Prop
  | done {a} (h : Q a) : Plays Q [] (.done a)
  | operand {acts box next}
      (h : ∀ v : Option (Value Local), (∀ w ∈ v, w.Depthless) → Plays Q acts (next v)) :
      Plays Q (.read box :: acts) (.operand box next)
  | declare {acts marked type init next} (hi : marked = false → init.Depthless)
      (h : ∀ v : Value Local, v.Depthless → Plays Q acts (next v)) :
      Plays Q (.declare marked :: acts) (.declare type init next)
  | block {acts body next} (h : Plays Q acts next) : Plays Q (.block :: acts) (.block body next)
  | comment {acts text next} (h : Plays Q acts next) :
      Plays Q (.comment text :: acts) (.comment text next)
  | report {acts cause next} (hc : ¬cause.OfCall) (h : Plays Q acts next) :
      Plays Q acts (.report cause next)
  | use {acts feature next} (h : Plays Q acts next) :
      Plays Q (.use feature :: acts) (.use feature next)
  | sample {acts texture next} (h : Plays Q acts next) :
      Plays Q (.sample texture :: acts) (.sample texture next)
  | remember {acts box next} {value : Option (Value Local)} (hv : ∀ w ∈ value, w.Depthless)
      (h : Plays Q acts next) : Plays Q (.remember :: acts) (.remember box value next)
  | claim {acts input next} (h : ∀ c : Claim, Plays Q (c.acts ++ acts) (next c)) :
      Plays Q (.claim :: acts) (.claim input next)

namespace Recipe.Plays

variable {α β ι : Type} {Q : α → Prop} {R : β → Prop} {r : Recipe Local α} {site : Site}
  {v : Value Local} {acts acts' : List Act}

theorem bind {f : α → Recipe Local β} (h : r.Plays Q acts) (hf : ∀ a, Q a → (f a).Plays R acts') :
    (r >>= f).Plays R (acts ++ acts') := by
  change (r.bind f).Plays R (acts ++ acts')
  induction h with
  | done h => exact hf _ h
  | operand _ ih => exact .operand ih
  | declare hi _ ih => exact .declare hi ih
  | block _ ih => exact .block ih
  | comment _ ih => exact .comment ih
  | report hc _ ih => exact .report hc ih
  | use _ ih => exact .use ih
  | sample _ ih => exact .sample ih
  | remember hv _ ih => exact .remember hv ih
  | claim _ ih => exact .claim fun c => List.append_assoc _ _ _ ▸ ih c

/-- Scripts for the members of a list, one after the other. -/
theorem mapM {f : ι → Recipe Local α} {script : ι → List Act} {xs : List ι} {n : Nat}
    (hn : xs.length = n) (h : ∀ x ∈ xs, (f x).Plays Q (script x)) :
    (xs.mapM f).Plays (fun as => as.length = n ∧ ∀ a ∈ as, Q a) (xs.flatMap script) := by
  suffices hloop : ∀ as : List α, (∀ a ∈ as, Q a) → (List.mapM.loop f xs as).Plays
      (fun bs => bs.length = as.length + xs.length ∧ ∀ b ∈ bs, Q b) (xs.flatMap script) by
    rw [← hn, ← Nat.zero_add xs.length]
    exact hloop [] (by simp)
  clear hn
  induction xs with
  | nil => exact fun as has => .done (by simpa using has)
  | cons x xs ih =>
    intro as has
    refine (h x List.mem_cons_self).bind fun a ha => ?_
    have hrest := ih (fun y hy => h y (List.mem_cons_of_mem x hy)) (a :: as)
      (by simpa using ⟨ha, has⟩)
    rw [List.length_cons, Nat.add_right_comm] at hrest
    exact hrest

/-! Steps of recipes -/

theorem operand? (box : BoxId) :
    (Recipe.operand? box).Plays (fun v => ∀ w ∈ v, w.Depthless) [.read box] :=
  .operand fun _ h => .done h

theorem newLocal (type : ValueType) {init : Code Local} (h : init.Depthless) :
    (Recipe.newLocal type init).Plays Value.Depthless [.declare false] :=
  .declare (fun _ => h) fun _ hv => .done hv

theorem castTo (type : ValueType) (hv : v.Depthless) :
    (Recipe.castTo type v).Plays Value.Depthless [] := by
  unfold Recipe.castTo
  split
  next h => exact .done (hv.cast h)
  next => exact .report (by rintro ⟨⟩) (.done (.zero type))

theorem operandOr (box : BoxId) (h : v.Depthless) :
    (Recipe.operandOr box v).Plays Value.Depthless [.read box] :=
  .operand fun _ hw => .done (.getD hw h)

theorem operandOrParam (site : Site) (box : BoxId) (param : Nat) :
    (Recipe.operandOrParam site box param).Plays Value.Depthless [.read box] :=
  operandOr box (.getD (.paramValue? site param) (.zero _))

theorem feed (box : BoxId) (type : ValueType) (h : v.Depthless) :
    (Recipe.feed box type v).Plays Value.Depthless [.read box] :=
  (operandOr box h).bind fun _ hv => castTo type hv

theorem invalidOutput (site : Site) : (Recipe.invalidOutput site).Plays Value.Depthless [] :=
  .report (by rintro ⟨⟩) (.done (.zero _))

/-! Recipes of the node kinds -/

theorem constant (site : Site) : (Recipe.constant site).Plays Value.Depthless [] := by
  unfold Recipe.constant
  cases hp : (site.paramValue? 0 : Option (Value Local)) with
  | some v => exact castTo _ (Value.Depthless.paramValue? site 0 v hp)
  | none => exact .done (.zero _)

theorem apply (op : BinaryOp) {a b : Code Local} (ha : a.Depthless) (hb : b.Depthless) :
    (op.apply a b).Depthless := by
  cases op with
  | add | subtract | multiply | divide => exact (ha.append (.text (by decide))).append hb
  | min | max | dot =>
    exact ((((Code.Depthless.text (by decide)).append ha).append (.text (by decide))).append
      hb).append (.text (by decide))

theorem binary (op : BinaryOp) (site : Site) :
    (Recipe.binary op site).Plays Value.Depthless [.read 0, .read 1, .declare false] := by
  refine (operandOrParam site 0 0).bind fun a ha => (operandOrParam site 1 1).bind fun b hb => ?_
  exact (castTo _ ha).bind fun a ha => (castTo _ hb).bind fun b hb => newLocal _ (apply op ha hb)

theorem unary {function : String} (hf : Text.depthless s!"{function}(".toList = true)
    (site : Site) :
    (Recipe.unary function site).Plays Value.Depthless [.read 0, .declare false] := by
  refine (operandOrParam site 0 0).bind fun x hx => newLocal _ ?_
  exact ((Code.Depthless.text hf).append hx).append (.text (by decide))

theorem blendNormals :
    Recipe.blendNormals.Plays Value.Depthless [.read 0, .read 1, .declare false] := by
  refine (operandOr 0 (.zero _)).bind fun a ha => (castTo _ ha).bind fun a ha => ?_
  refine (operandOr 1 (.zero _)).bind fun b hb => (castTo _ hb).bind fun b hb => newLocal _ ?_
  refine ((((Code.Depthless.text (by decide)).append ha).append (.text (by decide))).append
    hb).append (.text (by decide)) |>.append ha |>.append (.text (by decide)) |>.append hb
      |>.append (.text (by decide))

theorem cameraDepthFade (site : Site) :
    (Recipe.cameraDepthFade site).Plays Value.Depthless
      ([.read 0, .read 1, .comment site.node.kind.name] ++ .replicate 5 (.declare false)) := by
  refine (operandOrParam site 0 0).bind fun _ hl => (castTo _ hl).bind fun l hl => ?_
  refine (operandOrParam site 1 1).bind fun _ ho => (castTo _ ho).bind fun o ho => .comment ?_
  refine (newLocal _ (.text (by decide))).bind fun c hc => ?_
  refine (newLocal _ (.text (by decide))).bind fun f hf => ?_
  refine (newLocal _ ?_).bind fun d hd => (newLocal _ ?_).bind fun e he => newLocal _ ?_
  · exact ((((Code.Depthless.text (by decide)).append hc).append (.text (by decide))).append
      hf).append (.text (by decide)) |>.append hc |>.append (.text (by decide))
  · exact (hd.append (.text (by decide))).append ho
  · exact ((((Code.Depthless.text (by decide)).append he).append (.text (by decide))).append
      hl).append (.text (by decide))

theorem depthFade (site : Site) :
    (Recipe.depthFade site).Plays Value.Depthless
      ([.comment site.node.kind.name, .declare false, .sample .sceneDepth, .use .sceneDepth,
        .declare true] ++ .replicate 4 (.declare false)) := by
  refine (castTo _ (.getD (.paramValue? site 0) (.one _))).bind fun t ht => .comment ?_
  refine (newLocal _ (.text (by decide))).bind fun uv _ => .sample (.use ?_)
  refine .declare (by simp) fun d hd => ?_
  refine (newLocal _ ?_).bind fun e he => (newLocal _ (.text (by decide))).bind fun f hf => ?_
  · exact ((Code.Depthless.text (by decide)).append hd).append (.text (by decide))
  refine (newLocal _ ?_).bind fun h hh => newLocal _ ?_
  · exact (he.append (.text (by decide))).append hf
  · exact ((((Code.Depthless.text (by decide)).append hh).append (.text (by decide))).append
      ht).append (.text (by decide))

theorem terrainLayerWeight (domain : Domain) (site : Site) :
    (Recipe.terrainLayerWeight domain site).Plays Value.Depthless [] := by
  unfold Recipe.terrainLayerWeight
  split
  · dsimp only
    split
    · refine .done (.text _ (Text.depthless_of_not_mem ?_))
      simp [Literal.toString_self, Literal.not_mem_toDigits (c := 'D') (by decide)]
    · exact .report (by rintro ⟨⟩) (.done (.one _))
  · exact .done (.one _)

theorem interpolate (stage : Stage) :
    (Recipe.interpolate stage).Plays Value.Depthless
      (if stage = .vertex then [.read 0] else [.claim]) := by
  cases stage with
  | vertex => exact feed 0 _ (.zero _)
  | pixel =>
    refine .claim fun c => ?_
    cases c with
    | granted slot =>
      refine .use (.done (.text _ (Text.depthless_of_not_mem ?_)))
      simp [Literal.toString_self, Literal.not_mem_toDigits (c := 'D') (by decide)]
    | full limit => exact .report (by rintro ⟨⟩) (.done (.zero _))
    | unsupported => exact .report (by rintro ⟨⟩) (.done (.zero _))

theorem customOutputs (site : Site) :
    (Recipe.customOutputs site).Plays
      (fun outputs => outputs.length = CustomCode.outputCount ∧
        ∀ v ∈ outputs, ∀ w ∈ v, w.Depthless)
      ((List.range CustomCode.outputCount).flatMap fun i =>
        if site.graph.hasConsumers site.key.node (CustomCode.outputBox i) then [.declare false]
        else []) := by
  refine mapM List.length_range fun i _ => ?_
  split
  · refine (newLocal _ (Value.Depthless.zero _)).bind fun v hv => .done ?_
    simpa using hv
  · exact .done (by simp)

theorem customInputs :
    Recipe.customInputs.Plays
      (fun inputs => inputs.length = CustomCode.inputCount ∧ ∀ v ∈ inputs, v.Depthless)
      ((List.range CustomCode.inputCount).flatMap fun i => [.read (CustomCode.inputBox i)]) := by
  refine mapM List.length_range fun i _ => ?_
  change Recipe.Plays _ ([.read (CustomCode.inputBox i)] ++ []) _
  refine (operand? _).bind fun v hv => ?_
  cases v with
  | none => exact .done (.zero _)
  | some v => exact castTo _ (hv v rfl)

theorem rememberOutputs {next : Recipe Local α} (hnext : next.Plays Q acts)
    {values : List (Option (Value Local))} (h : ∀ v ∈ values, ∀ w ∈ v, w.Depthless)
    (start : Nat) :
    (Recipe.rememberOutputs next values start).Plays Q
      (.replicate values.length .remember ++ acts) := by
  induction values generalizing start with
  | nil => exact hnext
  | cons v values ih =>
    exact .remember (h v List.mem_cons_self)
      (ih (fun w hw => h w (List.mem_cons_of_mem v hw)) (start + 1))

end Recipe.Plays

open CustomCode in
/-- The script of custom code that is not blank: locals for the outputs that some box reads, all
inputs, the block, and what to remember of the outputs. -/
def Site.customScript (site : Site) : List Act :=
  [.use .customCode] ++
  ((List.range outputCount).flatMap fun i =>
    if site.graph.hasConsumers site.key.node (outputBox i) then [.declare false] else []) ++
  ((List.range inputCount).flatMap fun i => [.read (inputBox i)]) ++
  [.comment site.node.kind.name, .block] ++
  .replicate outputCount .remember

theorem Recipe.Plays.customScript {site : Site} {text : String} {i : Nat}
    (hc : site.node.IsCustom text) (hi : CustomCode.output? site.box = some i) :
    (Recipe.customCode site).Plays Value.Depthless site.customScript := by
  rw [Recipe.customCode_eq hc hi]
  simp only [Site.customScript, List.append_assoc]
  refine .use ((customOutputs site).bind fun outputs ho => ?_)
  refine customInputs.bind fun inputs _ => .comment (.block ?_)
  have hvalue : (Recipe.outputValue site outputs i).Depthless := by
    unfold Recipe.outputValue
    split
    · refine .getD (fun w hw => ?_) (.zero _)
      exact ho.2 _ (List.mem_of_getElem? (Option.join_eq_some_iff.mp hw)) w rfl
    · exact .zero _
  have hrest := rememberOutputs (.done hvalue) ho.2 0
  rwa [ho.1, List.append_nil] at hrest

/-- The script of a box. Calls and function inputs have none within one graph. -/
def Site.script (site : Site) (stage : Stage) : List Act :=
  match site.node.kind with
  | .customCode =>
    if (CustomCode.output? site.box).isSome ∧
      ¬Text.isBlank (((site.node.param? 0).bind Param.text?).getD "") then site.customScript
    else []
  | .add | .subtract | .multiply | .divide | .min | .max | .dot | .blendNormals =>
    [.read 0, .read 1, .declare false]
  | .abs | .saturate | .normalize => [.read 0, .declare false]
  | .cameraDepthFade =>
    [.read 0, .read 1, .comment site.node.kind.name] ++ .replicate 5 (.declare false)
  | .depthFade =>
    [.comment site.node.kind.name, .declare false, .sample .sceneDepth, .use .sceneDepth,
      .declare true] ++ .replicate 4 (.declare false)
  | .interpolateVsToPs => if stage = .vertex then [.read 0] else [.claim]
  | .cameraVector | .depth => [.declare false]
  | .screenPosition => if site.box = 1 then [.declare false] else []
  | .vertexColor => [.use .vertexColor]
  | _ => []

namespace Recipe.Plays

theorem customCode {site : Site} (stage : Stage) (hk : site.node.kind = .customCode) :
    (Recipe.customCode site).Plays Value.Depthless (site.script stage) := by
  unfold Site.script
  rw [hk]
  dsimp only
  cases hi : CustomCode.output? site.box with
  | none =>
    have hfind : (List.range CustomCode.outputCount).find? (CustomCode.outputBox · == site.box) =
      none := hi
    rw [Recipe.customCode, hfind]
    exact invalidOutput site
  | some i =>
    have hfind : (List.range CustomCode.outputCount).find? (CustomCode.outputBox · == site.box) =
      some i := hi
    cases hb : Text.isBlank (((site.node.param? 0).bind Param.text?).getD "") with
    | true =>
      rw [Recipe.customCode, hfind]
      dsimp only
      rw [hb]
      exact .done (.zero _)
    | false =>
      exact customScript ⟨hk, rfl, hb⟩ hi

end Recipe.Plays

open Recipe.Plays in
/-- The recipe of a box follows the script of the box. -/
theorem Site.recipe_plays (site : Site) (domain : Domain) (stage : Stage) :
    (site.recipe domain stage).Plays Value.Depthless (site.script stage) := by
  by_cases hcustom : site.node.kind = .customCode
  · unfold Site.recipe
    rw [hcustom]
    exact customCode stage hcustom
  have hcamera := cameraDepthFade site
  have hdepth := depthFade site
  unfold Site.recipe Site.script
  cases hk : site.node.kind with
  | customCode => exact absurd hk hcustom
  | cameraDepthFade => rwa [hk] at hcamera
  | depthFade => rwa [hk] at hdepth
  | interpolateVsToPs => exact interpolate stage
  | terrainLayerWeight => exact terrainLayerWeight domain site
  | blendNormals => exact blendNormals
  | bool | integer | float | vector2 | vector3 | vector4 => exact constant site
  | add | subtract | multiply | divide | min | max | dot => exact binary _ site
  | abs | saturate | normalize => exact unary (by decide) site
  | cameraVector | depth => exact newLocal _ (.text (by decide))
  | vertexColor => exact .use (.done (.text _ (by decide)))
  | materialOutput | functionOutput | materialFunction | functionInput => exact .done (.zero _)
  | terrainHolesMask =>
    dsimp only
    split
    · exact .done (.text _ (by decide))
    · exact .done (.one _)
  | preSkinnedLocalPosition | preSkinnedLocalNormal =>
    cases stage with
    | vertex => exact .done (.text _ (by decide))
    | pixel => exact .done (.zero _)
  | view =>
    dsimp only
    split
    · exact .done (.text _ (by decide))
    · exact .done (.text _ (by decide))
    · exact .done (.text _ (by decide))
    · exact invalidOutput site
  | screenSize =>
    dsimp only
    split
    · exact .done (.text _ (by decide))
    · exact .done (.text _ (by decide))
    · exact invalidOutput site
  | screenPosition =>
    dsimp only
    split
    next h =>
      rw [h]
      exact newLocal _ (.text (by decide))
    next h =>
      split
      · exact .done (.text _ (by decide))
      next h' => exact absurd h' h
      · exact invalidOutput site
  | _ => exact .done (.text _ (by decide))

end ShaderGraph
