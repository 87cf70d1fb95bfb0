import ShaderGraph.Proofs.Interpolants
import ShaderGraph.Proofs.Likeness

/-! The outline of an evaluation: the types of its values, the line breaks of what it writes, and
the slots that it asks for. Recipes paste the code of values without line breaks into their
statements, and look at nothing but its type, so the outline does not depend on which slots are
handed out. -/

namespace ShaderGraph

/-! ### Line breaks -/

/-- The number of line breaks in a text. -/
def Text.breaks (t : String) : Nat := t.toList.count '\n'

@[simp] theorem Text.breaks_append (s t : String) : breaks (s ++ t) = breaks s + breaks t := by
  simp [breaks]

namespace Code

variable {a b c d : Code Local}

/-- The code has no line breaks. -/
def OneLine (c : Code Local) : Prop := '\n' ∉ c.source.toList

@[simp] theorem oneLine_append : (a ++ b : Code Local).OneLine ↔ a.OneLine ∧ b.OneLine := by
  simp [OneLine, toList_source_append]

@[simp] theorem oneLine_ofString (t : String) :
    (ofString t : Code Local).OneLine ↔ '\n' ∉ t.toList := by
  rw [OneLine, toList_source_ofString]

theorem OneLine.operand (h : c.OneLine) : c.operand.OneLine := by
  unfold Code.operand
  split
  · exact h
  · simpa using h

/-- The code is not empty and has no line breaks. -/
structure Inline (c : Code Local) : Prop where
  ne_nil : c ≠ []
  oneLine : c.OneLine

theorem Inline.ofString {t : String} (h : t.toList ≠ [] ∧ '\n' ∉ t.toList) :
    (ofString t : Code Local).Inline :=
  ⟨by simpa [Code.ofString] using h.1, (oneLine_ofString t).mpr h.2⟩

theorem Inline.ref (r : Local) : Inline [.ref r] := by
  refine ⟨by simp, ?_⟩
  rw [OneLine, toList_source]
  simp [Atom.chars, Local.name_toList, Literal.not_mem_toDigits (c := '\n') (by decide)]

theorem Inline.source_ne_nil (h : c.Inline) : c.source.toList ≠ [] := by
  obtain ⟨x, rest, rfl⟩ := List.exists_cons_of_ne_nil h.ne_nil
  rw [toList_source]
  cases x <;> simp [Atom.chars, Local.name_toList]

/-- Two codes with as many line breaks, of which both or none end with one. -/
structure SameBreaks (c d : Code Local) : Prop where
  count : d.source.toList.count '\n' = c.source.toList.count '\n'
  last : d.source.toList.getLast? = some '\n' ↔ c.source.toList.getLast? = some '\n'
  empty : d.source.toList = [] ↔ c.source.toList = []

namespace SameBreaks

theorem refl (c : Code Local) : c.SameBreaks c := ⟨rfl, .rfl, .rfl⟩

theorem inline (hc : c.Inline) (hd : d.Inline) : c.SameBreaks d := by
  have hlast (c : Code Local) (hc : c.Inline) : c.source.toList.getLast? ≠ some '\n' :=
    fun h => hc.oneLine (List.mem_of_getLast? h)
  constructor
  case count => rw [List.count_eq_zero.mpr hc.oneLine, List.count_eq_zero.mpr hd.oneLine]
  case last => exact iff_of_false (hlast d hd) (hlast c hc)
  case empty => exact iff_of_false hd.source_ne_nil hc.source_ne_nil

theorem append (h : a.SameBreaks c) (h' : b.SameBreaks d) : (a ++ b).SameBreaks (c ++ d) := by
  constructor
  case count => simp [toList_source_append, h.count, h'.count]
  case last =>
    rw [toList_source_append, toList_source_append, List.getLast?_append, List.getLast?_append]
    by_cases hb : b.source.toList = []
    · rw [hb, h'.empty.mpr hb]
      simpa using h.last
    · have hd : d.source.toList ≠ [] := mt h'.empty.mp hb
      have hsome (l : List Char) (hl : l ≠ []) (o : Option Char) :
          l.getLast?.or o = l.getLast? := by
        rw [List.getLast?_eq_some_getLast hl, Option.some_or]
      rw [hsome _ hb, hsome _ hd]
      exact h'.last
  case empty =>
    rw [toList_source_append, toList_source_append, List.append_eq_nil_iff,
      List.append_eq_nil_iff, h.empty, h'.empty]

end SameBreaks

end Code

open Code

/-- Line breaks of a template with code in the place of its placeholders are those of its text. -/
theorem Template.sameBreaks_render {inputs inputs' outputs outputs' : List (Option (Code Local))}
    (hi : List.Forall₂ (Option.Rel fun c d => c.Inline ∧ d.Inline) inputs inputs')
    (ho : List.Forall₂ (Option.Rel fun c d => c.Inline ∧ d.Inline) outputs outputs')
    (t : Template) : (t.render inputs outputs).SameBreaks (t.render inputs' outputs') := by
  have hbound {l l' : List (Option (Code Local))}
      (h : List.Forall₂ (Option.Rel fun c d => c.Inline ∧ d.Inline) l l') (slot : Nat)
      (name : String) : (bound l slot name).SameBreaks (bound l' slot name) := by
    have hslot := optionRel_getElem? h slot
    unfold bound
    generalize l[slot]? = a at hslot ⊢
    generalize l'[slot]? = b at hslot ⊢
    rcases hslot with ⟨⟨h⟩ | _⟩ | _
    · exact .inline h.1 h.2
    · exact .refl _
    · exact .refl _
  unfold render
  induction t.segments with
  | nil => exact .refl _
  | cons segment segments ih =>
    rw [List.flatMap_cons, List.flatMap_cons]
    refine SameBreaks.append ?_ ih
    cases segment with
    | text s => exact .refl _
    | input slot => exact hbound hi slot _
    | output slot => exact hbound ho slot _

namespace Statement

theorem breaks_declare {init : Code Local} (h : init.OneLine) (name : Local) (type : ValueType) :
    Text.breaks (declare name type init).source = 1 := by
  have htype : '\n' ∉ type.name.toList := by
    rcases type with _ | _ | _ | (_ | _ | _ | _) | _ | _ <;> decide
  have hname : '\n' ∉ name.name.toList := by
    simp [Local.name_toList, Literal.not_mem_toDigits (c := '\n') (by decide)]
  rw [OneLine] at h
  simp [source, Text.breaks, Literal.toString_self, List.count_eq_zero.mpr htype,
    List.count_eq_zero.mpr hname, List.count_eq_zero.mpr h]

theorem breaks_block {body body' : Code Local} (h : body.SameBreaks body') :
    Text.breaks (block body').source = Text.breaks (block body).source := by
  unfold source
  dsimp only
  simp only [h.last]
  simp [Text.breaks, Literal.toString_self, h.count]

end Statement

/-! ### Values -/

theorem Binary32.literalText_ne_nil (x : Binary32) : x.literalText.toList ≠ [] := by
  unfold literalText
  dsimp only
  split_ifs
  all_goals simp [Decimal.positional, Literal.toString_self, Nat.toDigits_ne_nil]

theorem Literal.inline_text (l : Literal) : (l.text : Code Local).Inline := by
  have hdigits := not_mem_toDigits (c := '\n') (by decide)
  have hliteral := not_mem_literalText (c := '\n') (by decide) (by decide)
  apply Inline.ofString
  cases l with
  | bool b => cases b <;> decide
  | int i =>
    cases h : i.toInt with
    | ofNat n => simp [text, toString, Int.repr, h, hdigits, Nat.toDigits_ne_nil]
    | negSucc n => simp [text, toString, Int.repr, h, hdigits]
  | uint u => simp [text, toString_self, hdigits]
  | float x => exact ⟨x.literalText_ne_nil, hliteral x⟩
  | float2 | float3 | float4 => simp [text, toString_self, hliteral]

theorem Conversion.inline_apply {c : Code Local} (h : c.Inline) (conversion : Conversion)
    (target : ValueType) : (conversion.apply target c).Inline := by
  have htype : '\n' ∉ target.name.toList := by
    rcases target with _ | _ | _ | (_ | _ | _ | _) | _ | _ <;> decide
  have hoperand := h.oneLine.operand
  have hswizzle (count : Nat) : '\n' ∉ (swizzle count).toList := by
    rw [swizzle, String.toList_ofList]
    exact fun h => absurd (List.mem_of_mem_take h) (by decide)
  constructor
  case ne_nil => cases conversion <;> simp [apply, Code.ofString, Literal.toString_self]
  case oneLine =>
    cases conversion with
    | convert => simp [apply, Literal.toString_self, htype, h.oneLine]
    | first => simp [apply, hoperand]
    | convertFirst => simp [apply, Literal.toString_self, htype, hoperand]
    | leading count => simp [apply, Literal.toString_self, hoperand, hswizzle]
    | extend count zeros =>
      simp [apply, Literal.toString_self, htype, hoperand, hswizzle]

namespace Value

variable {v w : Value Local}

theorem inline_zero (type : ValueType) : (zero type : Value Local).code.Inline := by
  cases type with
  | matrix | texture => exact .ofString (by decide)
  | _ => exact Literal.inline_text _

theorem inline_one (type : ValueType) : (one type : Value Local).code.Inline := by
  cases type with
  | matrix | texture => exact .ofString (by decide)
  | _ => exact Literal.inline_text _

theorem inline_cast {target : ValueType} (h : v.code.Inline) (hw : v.cast target = .ok w) :
    w.code.Inline := by
  unfold Value.cast at hw
  split at hw
  · cases hw
    exact h
  · split at hw
    · split at hw
      · cases hw
        exact Literal.inline_text _
      · cases hw
        exact Conversion.inline_apply h _ _
    · cases hw

/-- Whether a value can be cast depends on its type only. -/
theorem cast_ok_iff {target : ValueType} : (∃ w, v.cast target = .ok w) ↔
    v.type = target ∨ v.type.components?.isSome ∧ target.components?.isSome := by
  unfold Value.cast
  by_cases ht : v.type = target
  · simp [ht]
  · rw [if_neg ht]
    cases v.type.components? with
    | none => simp [ht]
    | some n =>
      cases target.components? with
      | none => simp [ht]
      | some m =>
        dsimp only
        split <;> simp

/-- Values of the same type, each with code without line breaks. -/
structure SameOutline (v w : Value Local) : Prop where
  type : w.type = v.type
  left : v.code.Inline
  right : w.code.Inline

namespace SameOutline

theorem refl (h : v.code.Inline) : v.SameOutline v := ⟨rfl, h, h⟩

theorem text {t : String} (h : t.toList ≠ [] ∧ '\n' ∉ t.toList) (type : ValueType) :
    SameOutline (.expr type t) (.expr type t) :=
  refl (.ofString h)

theorem cast (target : ValueType) (h : v.SameOutline w) :
    (∃ v' w', v.cast target = .ok v' ∧ w.cast target = .ok w' ∧ v'.SameOutline w') ∨
      ∃ e e', v.cast target = .error e ∧ w.cast target = .error e' := by
  have hiff : (∃ w', w.cast target = .ok w') ↔ ∃ v', v.cast target = .ok v' := by
    rw [cast_ok_iff, cast_ok_iff, h.type]
  cases hv : v.cast target with
  | ok v' =>
    obtain ⟨w', hw⟩ := hiff.mpr ⟨v', hv⟩
    exact .inl ⟨v', w', rfl, hw, (type_cast hw).trans (type_cast hv).symm, inline_cast h.left hv,
      inline_cast h.right hw⟩
  | error e =>
    cases hw : w.cast target with
    | ok w' =>
      obtain ⟨v', hv'⟩ := hiff.mp ⟨w', hw⟩
      rw [hv] at hv'
      cases hv'
    | error e' => exact .inr ⟨e, e', rfl, rfl⟩

end SameOutline

end Value

/-! ### Slots -/

/-- How many slots can be handed out. -/
def Settings.room (settings : Settings) : Nat :=
  if settings.domain.supportsInterpolants then settings.slotLimit else 0

theorem State.claim_slots (s : State) (settings : Settings) (key input : BoxKey) :
    (s.claim settings key input).2.slots =
      if s.slots.length < settings.room then s.slots ++ [⟨key, input, s.context⟩] else s.slots := by
  unfold State.claim Settings.room
  by_cases hfull : settings.slotLimit ≤ s.slots.length
  · rw [if_pos hfull]
    split
    · rw [if_neg (by omega)]
    · simp
  · rw [if_neg hfull]
    cases settings.domain.supportsInterpolants with
    | false => simp
    | true => simp [Nat.lt_of_not_le hfull]

/-- What is left of a list that gets longer. -/
theorem take_concat {α : Type} (l : List α) (x : α) (n : Nat) :
    (l ++ [x]).take n = if l.length < n then l.take n ++ [x] else l.take n := by
  rw [List.take_append]
  split
  next h => rw [List.take_of_length_le (l := [x]) (by simp; omega)]
  next h => rw [Nat.sub_eq_zero_of_le (Nat.le_of_not_lt h)]; simp

/-- Of all slots that are claimed, the first ones are handed out. -/
theorem State.claim_slots_take {s : State} {settings : Settings} {base claimed : List Slot}
    (h : s.slots = base ++ claimed.take (settings.room - base.length)) (key input : BoxKey) :
    (s.claim settings key input).2.slots =
      base ++ (claimed ++ [Slot.mk key input s.context]).take (settings.room - base.length) := by
  have hlength : s.slots.length < settings.room ↔
      claimed.length < settings.room - base.length := by
    rw [h, List.length_append, List.length_take]
    omega
  rw [State.claim_slots, take_concat]
  by_cases hroom : claimed.length < settings.room - base.length
  · rw [if_pos (hlength.mpr hroom), if_pos hroom, h, List.append_assoc]
  · rw [if_neg (mt hlength.mp hroom), if_neg hroom, h]

/-! ### The outline -/

/-- Evaluations with the same outline. The second one has `extra` more line breaks written and the
slots `base` claimed before; of all slots that are claimed from then on, each of them gets the first
ones, as many as it has room for. -/
def outline (settings : Settings) (limit extra : Nat) (base : List Slot) :
    Likeness settings limit where
  values := Value.SameOutline
  inits c d := c.OneLine ∧ d.OneLine
  blocks := SameBreaks
  claims _ _ := True
  writers w w' := Text.breaks w'.source = extra + Text.breaks w.source
  slots l l' := ∃ claimed : List Slot, l = claimed.take settings.room ∧
    l' = base ++ claimed.take ((settings.withLimit limit).room - base.length)
  textures _ _ := True
  literal l := .refl l.inline_text
  zero type := .refl (Value.inline_zero type)
  cast target h := h.cast target
  declare type hw hi := by
    refine ⟨⟨rfl, .ref _, .ref _⟩, ?_⟩
    rw [Writer.declare, Writer.declare]
    dsimp only
    rw [Writer.source_push, Writer.source_push, Text.breaks_append, Text.breaks_append,
      Statement.breaks_declare hi.1, Statement.breaks_declare hi.2, hw, Nat.add_assoc]
  block hw hb := by
    rw [Writer.source_push, Writer.source_push, Text.breaks_append, Text.breaks_append,
      Statement.breaks_block hb, hw, Nat.add_assoc]
  comment text hw := by
    rw [Writer.source_push, Writer.source_push, Text.breaks_append, Text.breaks_append, hw,
      Nat.add_assoc]
  claim {s u} key input hc := by
    rintro ⟨claimed, hs, hu⟩
    refine ⟨trivial, claimed ++ [⟨key, input, s.context⟩], ?_, ?_⟩
    · have hs' : s.slots = [] ++ claimed.take (settings.room - ([] : List Slot).length) := hs
      exact State.claim_slots_take hs' key input
    · rw [State.claim_slots_take hu, hc]
  sample _ _ := trivial

/-- Two recipes with the same outline. -/
abbrev Recipe.SameOutline (settings : Settings) (limit extra : Nat) (base : List Slot)
    (r r' : Recipe Local (Value Local)) : Prop :=
  r.Alike (outline settings limit extra base) Value.SameOutline r'

namespace Recipe.SameOutline

open ValueType

variable {settings : Settings} {limit extra : Nat} {base : List Slot}

theorem value {v : Value Local} (h : v.code.Inline) :
    SameOutline settings limit extra base (.done v) (.done v) := .done (.refl h)

theorem text {type : ValueType} {t : String} (h : t.toList ≠ [] ∧ '\n' ∉ t.toList) :
    SameOutline settings limit extra base (.done (.expr type t)) (.done (.expr type t)) :=
  .done (.text h type)

theorem newLocal (type : ValueType) {init init' : Code Local} (h : init.OneLine)
    (h' : init'.OneLine) : SameOutline settings limit extra base (.newLocal type init)
      (.newLocal type init') :=
  Alike.newLocal type ⟨h, h'⟩

theorem invalidOutput (site : Site) :
    SameOutline settings limit extra base (.invalidOutput site) (.invalidOutput site) :=
  .note (.report _ _) (.report _ _) (value (Value.inline_zero _))

theorem constant (site : Site) :
    SameOutline settings limit extra base (.constant site) (.constant site) := by
  have hparam := Alike.paramValue? (L := outline settings limit extra base) site 0
  unfold Recipe.constant
  generalize (site.paramValue? 0 : Option (Value Local)) = a at hparam ⊢
  cases hparam with
  | none => exact value (Value.inline_zero _)
  | some h => exact .castTo _ h

theorem binary (op : BinaryOp) (site : Site) :
    SameOutline settings limit extra base (.binary op site) (.binary op site) := by
  have happly {a b : Value Local} (ha : a.code.Inline) (hb : b.code.Inline) :
      (op.apply a.code b.code).OneLine := by
    cases op <;> simp [BinaryOp.apply, ha.oneLine, hb.oneLine]
  refine (Alike.operandOrParam site 0 0).bind fun a a' ha => ?_
  refine (Alike.operandOrParam site 1 1).bind fun b b' hb => ?_
  rw [ha.type, hb.type]
  refine (Alike.castTo _ ha).bind fun a a' ha => (Alike.castTo _ hb).bind fun b b' hb => ?_
  exact newLocal _ (happly ha.left hb.left) (happly ha.right hb.right)

theorem unary {function : String} (hf : '\n' ∉ function.toList) (site : Site) :
    SameOutline settings limit extra base (.unary function site) (.unary function site) := by
  refine (Alike.operandOrParam site 0 0).bind fun v w h => ?_
  rw [h.type]
  apply newLocal
  · simp [Literal.toString_self, hf, h.left.oneLine]
  · simp [Literal.toString_self, hf, h.right.oneLine]

theorem blendNormals : SameOutline settings limit extra base .blendNormals .blendNormals := by
  have hzero : (Value.zero float3).SameOutline (.zero float3) := .refl (Value.inline_zero _)
  refine (Alike.operandOr 0 hzero).bind fun _ _ h => (Alike.castTo _ h).bind fun a a' ha => ?_
  refine (Alike.operandOr 1 hzero).bind fun _ _ h => (Alike.castTo _ h).bind fun b b' hb => ?_
  apply newLocal
  · simp [ha.left.oneLine, hb.left.oneLine]
  · simp [ha.right.oneLine, hb.right.oneLine]

theorem cameraDepthFade (site : Site) :
    SameOutline settings limit extra base (.cameraDepthFade site) (.cameraDepthFade site) := by
  refine (Alike.operandOrParam site 0 0).bind fun _ _ h => ?_
  refine (Alike.castTo _ h).bind fun length length' hlength => ?_
  refine (Alike.operandOrParam site 1 1).bind fun _ _ h => ?_
  refine (Alike.castTo _ h).bind fun offset offset' hoffset => .comment ?_
  refine (newLocal _ (by simp) (by simp)).bind fun camera camera' hcamera => ?_
  refine (newLocal _ (by simp) (by simp)).bind fun forward forward' hforward => ?_
  refine (newLocal _ ?_ ?_).bind fun depth depth' hdepth => ?_
  · simp [hcamera.left.oneLine, hforward.left.oneLine]
  · simp [hcamera.right.oneLine, hforward.right.oneLine]
  refine (newLocal _ ?_ ?_).bind fun faded faded' hfaded => ?_
  · simp [hdepth.left.oneLine, hoffset.left.oneLine]
  · simp [hdepth.right.oneLine, hoffset.right.oneLine]
  apply newLocal
  · simp [hfaded.left.oneLine, hlength.left.oneLine]
  · simp [hfaded.right.oneLine, hlength.right.oneLine]

theorem depthFade (site : Site) :
    SameOutline settings limit extra base (.depthFade site) (.depthFade site) := by
  have hone : (Value.one float1).SameOutline (.one float1) := .refl (Value.inline_one _)
  have hparam := Alike.paramValue? (L := outline settings limit extra base) site 0
  refine (Alike.castTo _ (optionRel_getD hparam hone)).bind fun distance distance' hdistance => ?_
  refine .comment ((newLocal _ (by simp) (by simp)).bind fun uv uv' huv => ?_)
  refine .sample (.note (.use _ _) (.use _ _) ?_)
  refine (newLocal _ ?_ ?_).bind fun sampled sampled' hsampled => ?_
  · simp [Literal.toString_self, SceneTexture.shaderName, huv.left.oneLine]
  · simp [Literal.toString_self, SceneTexture.shaderName, huv.right.oneLine]
  refine (newLocal _ ?_ ?_).bind fun scene scene' hscene => ?_
  · simp [hsampled.left.oneLine]
  · simp [hsampled.right.oneLine]
  refine (newLocal _ (by simp) (by simp)).bind fun pixel pixel' hpixel => ?_
  refine (newLocal _ ?_ ?_).bind fun difference difference' hdifference => ?_
  · simp [hscene.left.oneLine, hpixel.left.oneLine]
  · simp [hscene.right.oneLine, hpixel.right.oneLine]
  apply newLocal
  · simp [hdifference.left.oneLine, hdistance.left.oneLine]
  · simp [hdifference.right.oneLine, hdistance.right.oneLine]

theorem terrainLayerWeight (domain : Domain) (site : Site) :
    SameOutline settings limit extra base (.terrainLayerWeight domain site)
      (.terrainLayerWeight domain site) := by
  have hdigits := Literal.not_mem_toDigits (c := '\n') (by decide)
  unfold Recipe.terrainLayerWeight
  split
  · dsimp only
    split
    · exact text (by simp [Literal.toString_self, hdigits])
    · exact .note (.report _ _) (.report _ _) (value (Value.inline_one _))
  · exact value (Value.inline_one _)

/-- Whether a slot is handed out or not, the value has four components. -/
theorem interpolate_pixel : ∃ next, (Recipe.interpolate .pixel : Recipe Local _) = .claim 0 next ∧
    ∀ c, ∃ v, (next c).Notes (.done v) ∧ v.type = float4 ∧ v.code.Inline := by
  refine ⟨_, rfl, fun c => ?_⟩
  cases c with
  | granted slot =>
    refine ⟨slotRead slot, .use _ _, rfl, .ofString ?_⟩
    simp [Literal.toString_self, Literal.not_mem_toDigits (c := '\n') (by decide)]
  | full limit => exact ⟨.zero float4, .report _ _, rfl, Value.inline_zero _⟩
  | unsupported => exact ⟨.zero float4, .report _ _, rfl, Value.inline_zero _⟩

theorem interpolate (stage : Stage) :
    SameOutline settings limit extra base (.interpolate stage) (.interpolate stage) := by
  cases stage with
  | vertex =>
    have hzero : (Value.zero float4).SameOutline (.zero float4) := .refl (Value.inline_zero _)
    exact (Alike.operandOr 0 hzero).bind fun _ _ h => .castTo _ h
  | pixel =>
    obtain ⟨next, hnext, hanswer⟩ := interpolate_pixel
    rw [hnext]
    refine .claim fun c c' _ => ?_
    obtain ⟨v, hn, ht, hv⟩ := hanswer c
    obtain ⟨w, hn', ht', hw⟩ := hanswer c'
    exact .note hn hn' (.done ⟨ht'.trans ht.symm, hv, hw⟩)

/-! Custom code -/

theorem customOutputs (site : Site) :
    (Recipe.customOutputs site).Alike (outline settings limit extra base)
      (List.Forall₂ (Option.Rel Value.SameOutline)) (Recipe.customOutputs site) := by
  refine .mapM _ fun i _ => ?_
  split
  · have hzero := (Value.inline_zero float4).oneLine
    exact (newLocal _ hzero hzero).bind fun _ _ h => .done (.some h)
  · exact .done .none

theorem customInputs :
    Recipe.customInputs.Alike (outline settings limit extra base)
      (List.Forall₂ Value.SameOutline) Recipe.customInputs := by
  refine .mapM _ fun i _ => (Alike.operand? _).bind fun a b hab => ?_
  cases hab with
  | none => exact value (Value.inline_zero _)
  | some h => exact .castTo _ h

theorem rememberAll {values values' : List (Option (Value Local))}
    (h : List.Forall₂ (Option.Rel Value.SameOutline) values values') (start : Nat) :
    ((values.zipIdx start).forM fun (v, i) => setMemory (CustomCode.outputBox i) v).Alike
      (outline settings limit extra base) (fun _ _ => True)
      ((values'.zipIdx start).forM fun (v, i) => setMemory (CustomCode.outputBox i) v) := by
  induction h generalizing start with
  | nil => exact .done trivial
  | cons hv _ ih => exact .remember hv (ih (start + 1))

theorem customBlock (site : Site) (text : String) :
    (Recipe.customBlock site text).Alike (outline settings limit extra base)
      (List.Forall₂ (Option.Rel Value.SameOutline)) (Recipe.customBlock site text) := by
  refine .note (.use _ _) (.use _ _) ((customOutputs site).bind fun outputs outputs' ho => ?_)
  refine customInputs.bind fun inputs inputs' hi => .comment (.block ?_ ?_)
  · refine Template.sameBreaks_render ?_ ?_ _
    · rw [List.forall₂_map_left_iff, List.forall₂_map_right_iff]
      exact hi.imp fun v w h => .some ⟨h.left, h.right⟩
    · rw [List.forall₂_map_left_iff, List.forall₂_map_right_iff]
      refine ho.imp fun a b hab => ?_
      cases hab with
      | none => exact .none
      | some h => exact .some ⟨h.left, h.right⟩
  · exact (rememberAll ho 0).bind fun _ _ _ => .done ho

theorem customCode (site : Site) :
    SameOutline settings limit extra base (.customCode site) (.customCode site) := by
  unfold Recipe.customCode
  split
  · exact invalidOutput site
  next i _ =>
    dsimp only
    split
    · exact value (Value.inline_zero _)
    · refine (customBlock site _).bind fun outputs outputs' ho => ?_
      have hslot := optionRel_getElem? ho i
      generalize outputs[i]? = a at hslot ⊢
      generalize outputs'[i]? = b at hslot ⊢
      cases site.node.box? site.box with
      | none => exact value (Value.inline_zero _)
      | some _ =>
        rcases hslot with ⟨⟨h⟩ | _⟩ | _
        · exact .done h
        · exact value (Value.inline_zero _)
        · exact value (Value.inline_zero _)

end Recipe.SameOutline

open Recipe Recipe.SameOutline in
/-- The recipes of all nodes keep the outline. -/
theorem outline_kept (settings : Settings) (limit extra : Nat) (base : List Slot) :
    (outline settings limit extra base).Kept := by
  intro site stage
  unfold Site.recipe
  cases site.node.kind with
  | customCode => exact customCode site
  | cameraDepthFade => exact cameraDepthFade site
  | interpolateVsToPs => exact interpolate stage
  | terrainLayerWeight => exact terrainLayerWeight _ site
  | depthFade => exact depthFade site
  | blendNormals => exact blendNormals
  | bool | integer | float | vector2 | vector3 | vector4 => exact constant site
  | add | subtract | multiply | divide | min | max | dot => exact binary _ site
  | abs | saturate | normalize => exact unary (by decide) site
  | cameraVector | depth => exact newLocal _ (by simp) (by simp)
  | vertexColor => exact .note (.use _ _) (.use _ _) (text (by decide))
  | terrainHolesMask =>
    dsimp only
    split
    · exact text (by decide)
    · exact value (Value.inline_one _)
  | preSkinnedLocalPosition | preSkinnedLocalNormal =>
    cases stage with
    | vertex => exact text (by decide)
    | pixel => exact value (Value.inline_zero _)
  | view =>
    dsimp only
    split
    · exact text (by decide)
    · exact text (by decide)
    · exact text (by decide)
    · exact invalidOutput site
  | screenSize =>
    dsimp only
    split
    · exact text (by decide)
    · exact text (by decide)
    · exact invalidOutput site
  | screenPosition =>
    dsimp only
    split
    · exact text (by decide)
    · exact newLocal _ (by simp) (by simp)
    · exact invalidOutput site
  | materialOutput | functionOutput | materialFunction | functionInput =>
    exact value (Value.inline_zero _)
  | _ => exact text (by decide)

/-! ### Materials -/

namespace Generator

variable {settings : Settings} {limit extra : Nat} {base : List Slot} {g : Graph}
  {e e' : Evaluator} {s u : State}

/-- All slots are claimed by the parameters of the pixel stage. -/
theorem stages_slots (he : Engine.Follows settings g [] e) (hs : s.Idle settings g)
    (output : Nat) : (stages e output s).2.slots =
      (parameters e output .pixel (s.beginStage .pixel)).2.slots := by
  have hpixel := parameters_succession he (hs.beginStage .pixel) output .pixel
  have hbegun := hpixel.idle.takeWriter.beginStage .vertex
  have hvertex := parameters_succession he hbegun output .vertex
  have hall := hvertex.append (interpolants_succession he hvertex.idle)
  obtain ⟨l, hl⟩ := hall.courses
  have hslots := (hall.slots_of_vertex hl rfl).1
  rw [stages_eq, pixelStage_eq]
  dsimp only
  rw [vertexStage_eq]
  dsimp only
  generalize parameters e output .pixel (s.beginStage .pixel) = p at hslots ⊢
  generalize parameters e output .vertex (p.2.takeWriter.2.beginStage .vertex) = q at hslots ⊢
  generalize interpolants e q.2.slots q.2 = r at hslots ⊢
  exact hslots

/-- Materials with the same outline: the pixel code of the second one has `extra` more line breaks,
and of all slots that are claimed each of them has the first ones. -/
theorem stages_outline (he : Engine.Follows settings g [] e)
    (he' : Engine.Follows (settings.withLimit limit) g [] e') (hs : s.Idle settings g)
    (hu : u.Idle (settings.withLimit limit) g)
    (h : (s.beginStage .pixel).Alike (outline settings limit extra base) (u.beginStage .pixel))
    (output : Nat) :
    Text.breaks (stages e' output u).1.pixel.code =
        extra + Text.breaks (stages e output s).1.pixel.code ∧
      ∃ claimed : List Slot, (stages e output s).2.slots = claimed.take settings.room ∧
        (stages e' output u).2.slots =
          base ++ claimed.take ((settings.withLimit limit).room - base.length) := by
  have hend := parameters_alike (outline_kept settings limit extra base) he he'
    ⟨hs.beginStage .pixel, hu.beginStage .pixel, h⟩ output .pixel
  rw [stages_slots he hs, stages_slots he' hu, stages_eq, stages_eq, pixelStage_eq, pixelStage_eq]
  generalize parameters e output .pixel (s.beginStage .pixel) = p at hend ⊢
  generalize parameters e' output .pixel (u.beginStage .pixel) = q at hend ⊢
  exact ⟨hend.alike.writers, hend.alike.slots⟩

end Generator

end ShaderGraph
