import ShaderGraph.Proofs.Relation

/-! The recipes of all node kinds respect every relation between codes: run with related answers,
the recipe of a box makes the same requests and gives a related value. Only custom code and
interpolants make requests beyond declarations, comments, reports and the use of features. -/

namespace ShaderGraph

theorem optionRel_getElem? {α β : Type} {R : α → β → Prop} {as : List α} {bs : List β}
    (h : List.Forall₂ R as bs) (i : Nat) : Option.Rel R as[i]? bs[i]? := by
  induction h generalizing i with
  | nil => exact .none
  | cons hab _ ih =>
    cases i with
    | zero => exact .some hab
    | succ i => exact ih i

namespace Template

variable {ρ σ : Type} {K : CodeRelation ρ σ} {n : Nat} {token : List Char}

/-! ### Templates -/

theorem slot?_some {limit slot : Nat} {digits : List Char} (h : slot? limit digits = some slot) :
    ∃ c, digits = [c] ∧ c.isDigit = true := by
  unfold slot? at h
  split at h
  next c =>
    split at h
    next hc => exact ⟨c, rfl, (Bool.and_eq_true _ _ ▸ hc).1⟩
    next => cases h
  next => cases h

/-- Placeholders stand for boxes, and are identifiers. -/
theorem placeholder?_some {segment : Segment} (h : placeholder? token = some segment) :
    (∀ s, segment ≠ .text s) ∧ ∀ c ∈ token, isIdentifierChar c = true := by
  unfold placeholder? at h
  split at h
  · obtain ⟨slot, hs, rfl⟩ := Option.map_eq_some_iff.mp h
    obtain ⟨c, rfl, hc⟩ := slot?_some hs
    refine ⟨by simp, ?_⟩
    simp [isIdentifierChar, Char.isAlphanum, hc]
  · obtain ⟨slot, hs, rfl⟩ := Option.map_eq_some_iff.mp h
    obtain ⟨c, rfl, hc⟩ := slot?_some hs
    refine ⟨by simp, ?_⟩
    simp [isIdentifierChar, Char.isAlphanum, hc]
  · cases h

/-- The code that a template puts in the place of a token. -/
def tokenCode (inputs outputs : List (Option (Code ρ))) (token : List Char) : Code ρ :=
  match placeholder? token with
  | some (.input slot) => bound inputs slot "Input"
  | some (.output slot) => bound outputs slot "Output"
  | _ => Code.ofString (.ofList token)

theorem render_parse (inputs outputs : List (Option (Code ρ))) (text : String) :
    (parse text).render inputs outputs =
      (tokens text.toList).flatMap (tokenCode inputs outputs) := by
  unfold parse render
  dsimp only
  induction tokens text.toList with
  | nil => rfl
  | cons token rest ih =>
    rw [List.flatMap_cons, ← ih, ofTokens, tokenCode]
    cases hp : placeholder? token with
    | some segment =>
      cases segment with
      | text s => exact absurd rfl ((placeholder?_some hp).1 s)
      | input slot => rfl
      | output slot => rfl
    | none =>
      dsimp only
      split
      next s segments hs => rw [hs]; simp [Code.ofString]
      next => rfl

/-- A token that does not consist of identifier characters stays as it is. -/
theorem tokenCode_of_not (inputs outputs : List (Option (Code ρ))) {c : Char} (hc : c ∈ token)
    (hi : isIdentifierChar c = false) :
    tokenCode inputs outputs token = token.map .char := by
  have hp : placeholder? token = none := by
    by_contra h
    obtain ⟨segment, hs⟩ := Option.ne_none_iff_exists'.mp h
    simp [(placeholder?_some hs).2 c hc] at hi
  simp [tokenCode, hp, Code.ofString]

/-- The code put in the place of a placeholder meets no identifier on either side. -/
theorem separated_tokenCode (inputs outputs : List (Option (Code ρ))) {next : List Char}
    (h : Separated token next) (hne : next ≠ []) (rest : Code ρ) :
    Code.Separated (tokenCode inputs outputs token) (tokenCode inputs outputs next ++ rest) := by
  obtain ⟨d, ds, rfl⟩ := List.exists_cons_of_ne_nil hne
  cases hd : isIdentifierChar d with
  | false =>
    refine Code.separated_of_head fun y hy => ?_
    rw [tokenCode_of_not inputs outputs List.mem_cons_self hd] at hy
    obtain rfl : y = .char d := by simpa using hy.symm
    exact hd
  | true =>
    cases hl : token.getLast? with
    | none =>
      obtain rfl : token = [] := by simpa using hl
      exact Code.separated_of_last (by simp [tokenCode, placeholder?, Code.ofString])
    | some c =>
      have hc : isIdentifierChar c = false := by
        by_contra hc
        simp [h c hl d rfl (by simpa using hc)] at hd
      refine Code.separated_of_last fun x hx => ?_
      rw [tokenCode_of_not inputs outputs (List.mem_of_getLast? hl) hc] at hx
      obtain rfl : x = .char c := by simpa [hl] using hx.symm
      exact hc

theorem bound_rel {bindings : List (Option (Code ρ))} {bindings' : List (Option (Code σ))}
    (h : List.Forall₂ (Option.Rel (K.rel n)) bindings bindings') {name : String}
    (hn : 'l' ∉ name.toList) (slot : Nat) :
    K.rel n (bound bindings slot name) (bound bindings' slot name) := by
  have hslot := optionRel_getElem? h slot
  have hfree : Local.Free s!"{name}{slot}".toList := by
    apply Local.free_of_not_mem
    simp [Literal.toString_self, Literal.not_mem_toDigits (c := 'l') (by decide), hn]
  unfold bound
  generalize bindings[slot]? = a at hslot ⊢
  generalize bindings'[slot]? = b at hslot ⊢
  rcases hslot with ⟨⟨h⟩ | _⟩ | _
  · exact h
  · exact K.text _ hfree
  · exact K.text _ hfree

theorem render_rel {inputs outputs : List (Option (Code ρ))}
    {inputs' outputs' : List (Option (Code σ))} {text : String}
    (hi : List.Forall₂ (Option.Rel (K.rel n)) inputs inputs')
    (ho : List.Forall₂ (Option.Rel (K.rel n)) outputs outputs')
    (hf : Local.Free text.toList ∨ K.names) :
    K.rel n ((parse text).render inputs outputs) ((parse text).render inputs' outputs') := by
  rw [render_parse, render_parse]
  have hc := tokens_separated text.toList
  have ht : ∀ t ∈ tokens text.toList, t ≠ [] ∧ (Local.Free t ∨ K.names) :=
    fun t h => ⟨(mem_tokens h).1, hf.imp_left (·.token h)⟩
  generalize tokens text.toList = toks at hc ht ⊢
  induction toks with
  | nil => exact K.text "" (by decide)
  | cons token rest ih =>
    have hrest := ih (List.isChain_cons.mp hc).2 fun t h => ht t (List.mem_cons_of_mem _ h)
    have htoken : K.rel n (tokenCode inputs outputs token) (tokenCode inputs' outputs' token) := by
      unfold tokenCode
      split
      · exact bound_rel hi (by decide) _
      · exact bound_rel ho (by decide) _
      · exact K.anyText _ (by simpa using (ht token List.mem_cons_self).2)
    refine K.append htoken hrest ?_
    cases rest with
    | nil => exact Code.separated_of_head (by simp)
    | cons next rest =>
      have hsep := (List.isChain_cons.mp hc).1 next rfl
      exact separated_tokenCode inputs outputs hsep (ht next (by simp)).1 _

end Template

namespace Recipe.Related

open CodeRelation ValueType

variable {ρ σ : Type} {K : CodeRelation ρ σ} {n : Nat}

/-- An expression without references. -/
theorem text {type : ValueType} {t : String} (h : Local.Free t.toList) :
    Related K K.Values n (.done (.expr type (Code.ofString t)))
      (.done (.expr type (Code.ofString t))) :=
  .done (.expr (K.text t h))

/-! ### Constants and arithmetic -/

theorem constant (site : Site) : Related K K.Values n (.constant site) (.constant site) := by
  unfold Recipe.constant
  have hp : Option.Rel (K.Values n) (site.paramValue? 0) (site.paramValue? 0) :=
    Values.paramValue? site 0
  generalize (site.paramValue? 0 : Option (Value ρ)) = a at hp ⊢
  generalize (site.paramValue? 0 : Option (Value σ)) = b at hp ⊢
  cases hp with
  | some h => exact castTo _ h
  | none => exact .done (.zero _)

theorem apply (op : BinaryOp) {a b : Code ρ} {a' b' : Code σ} (ha : K.rel n a a')
    (hb : K.rel n b b') : K.rel n (op.apply a b) (op.apply a' b') := by
  cases op with
  | add => exact between (by decide) (by decide) ha hb
  | subtract => exact between (by decide) (by decide) ha hb
  | multiply => exact between (by decide) (by decide) ha hb
  | divide => exact between (by decide) (by decide) ha hb
  | min => exact closing (by decide) (between (by decide) (by decide) (opening (by decide) ha) hb)
  | max => exact closing (by decide) (between (by decide) (by decide) (opening (by decide) ha) hb)
  | dot => exact closing (by decide) (between (by decide) (by decide) (opening (by decide) ha) hb)

theorem binary (op : BinaryOp) (site : Site) :
    Related K K.Values n (.binary op site) (.binary op site) := by
  refine (operandOrParam site 0 0).bind fun m a a' _ ha => ?_
  refine (operandOrParam site 1 1).bind fun k b b' hmk hb => ?_
  rw [ha.type_eq, hb.type_eq]
  refine (castTo _ (ha.mono hmk)).bind fun m c c' hkm hc => ?_
  refine (castTo _ (hb.mono hkm)).bind fun k d d' hmk hd => ?_
  exact newLocal (apply op (K.mono hmk hc.code) hd.code)

theorem unary {function : String} (hf : Code.Opening s!"{function}(") (site : Site) :
    Related K K.Values n (.unary function site) (.unary function site) := by
  refine (operandOrParam site 0 0).bind fun m x x' _ hx => ?_
  rw [hx.type_eq]
  exact newLocal (closing (by decide) (opening hf hx.code))

theorem blendNormals : Related K K.Values n .blendNormals .blendNormals := by
  refine (operandOr 0 fun _ => .zero float3).bind fun m a a' _ ha => ?_
  refine (castTo float3 ha).bind fun k a a' _ ha => ?_
  refine (operandOr 1 fun _ => .zero float3).bind fun m b b' hkm hb => ?_
  refine (castTo float3 hb).bind fun k b b' hmk hb => newLocal ?_
  have ha := K.mono hmk (K.mono hkm ha.code)
  have hb := hb.code
  refine closing (by decide) (between (by decide) (by decide) ?_ hb)
  refine between (by decide) (by decide) (between (by decide) (by decide) ?_ hb) ha
  exact opening (by decide) ha

/-! ### Fading -/

theorem cameraDepthFade (site : Site) :
    Related K K.Values n (.cameraDepthFade site) (.cameraDepthFade site) := by
  refine (operandOrParam site 0 0).bind fun _ _ _ _ hl => ?_
  refine (castTo float1 hl).bind fun n₁ length length' _ hl => ?_
  refine (operandOrParam site 1 1).bind fun n₂ _ _ h₂ ho => ?_
  refine (castTo float1 ho).bind fun n₃ offset offset' h₃ ho => .comment ?_
  refine (newLocal (K.text _ (by decide))).bind fun n₄ camera camera' h₄ hc => ?_
  refine (newLocal (K.text _ (by decide))).bind fun n₅ forward forward' h₅ hf => ?_
  have hdot := between (t := "), ") (by decide) (by decide)
    (opening (t := "dot(normalize(") (by decide) (K.mono h₅ hc.code)) hf.code
  have hdepth := closing (t := ")") (by decide)
    (between (t := ") * length(") (by decide) (by decide) hdot (K.mono h₅ hc.code))
  refine (newLocal hdepth).bind fun n₆ depth depth' h₆ hd => ?_
  have ho := ho.mono (n := n₆) (by omega)
  refine (newLocal (between (by decide) (by decide) hd.code ho.code)).bind fun n₇ x x' h₇ hx => ?_
  have hl := hl.mono (n := n₇) (by omega)
  exact newLocal (closing (by decide)
    (between (by decide) (by decide) (opening (by decide) hx.code) hl.code))

theorem depthFade (site : Site) :
    Related K K.Values n (.depthFade site) (.depthFade site) := by
  have hp : K.Values n ((site.paramValue? 0).getD (.one float1))
      ((site.paramValue? 0).getD (.one float1)) := .getD (Values.paramValue? site 0) (.one _)
  refine (castTo float1 hp).bind fun n₁ distance distance' _ hd => .comment ?_
  refine (newLocal (K.text _ (by decide))).bind fun n₂ uv uv' h₂ hu => .sample (.use ?_)
  refine (newLocal (closing (by decide) (opening (by decide) hu.code))).bind fun n₃ _ _ h₃ hs => ?_
  refine (newLocal (closing (by decide) (opening (by decide) hs.code))).bind fun n₄ _ _ h₄ hs => ?_
  refine (newLocal (K.text _ (by decide))).bind fun n₅ _ _ h₅ hx => ?_
  have hdiff := between (t := " * ViewFar - ") (by decide) (by decide) (K.mono h₅ hs.code) hx.code
  refine (newLocal hdiff).bind fun n₆ _ _ h₆ hx => ?_
  have hd := hd.mono (n := n₆) (by omega)
  exact newLocal (closing (by decide)
    (between (by decide) (by decide) (opening (by decide) hx.code) hd.code))

/-! ### Terrain and interpolants -/

theorem terrainLayerWeight (domain : Domain) (site : Site) :
    Related K K.Values n (.terrainLayerWeight domain site) (.terrainLayerWeight domain site) := by
  unfold Recipe.terrainLayerWeight
  split
  · dsimp only
    split
    · refine text (Local.free_of_not_mem ?_)
      simp [Literal.toString_self, Literal.not_mem_toDigits (c := 'l') (by decide)]
    · exact .report nofun (.done (.one _))
  · exact .done (.one _)

theorem interpolate (he : K.effects) (stage : Stage) :
    Related K K.Values n (.interpolate stage) (.interpolate stage) := by
  cases stage with
  | vertex => exact (operandOr 0 fun _ => .zero float4).bind fun _ _ _ _ h => castTo float4 h
  | pixel =>
    refine .claim he fun c => ?_
    cases c with
    | granted slot =>
      refine .use (text (Local.free_of_not_mem ?_))
      simp [Literal.toString_self, Literal.not_mem_toDigits (c := 'l') (by decide)]
    | full limit => exact .report nofun (.done (.zero _))
    | unsupported => exact .report nofun (.done (.zero _))

/-! ### Custom code -/

theorem optionRel_mono {m k : Nat} (hmk : m ≤ k) {a : Option (Value ρ)} {b : Option (Value σ)}
    (h : Option.Rel (K.Values m) a b) : Option.Rel (K.Values k) a b := by
  cases h with
  | some h => exact .some (h.mono hmk)
  | none => exact .none

theorem customOutputs (site : Site) :
    Related K (fun m => List.Forall₂ (Option.Rel (K.Values m))) n (.customOutputs site)
      (.customOutputs site) := by
  refine mapM (Q := fun m => Option.Rel (K.Values m)) (fun m k a b hmk => optionRel_mono hmk) _
    fun i _ m _ => ?_
  split
  · exact (newLocal (Values.zero float4).code).bind fun _ _ _ _ h => .done (.some h)
  · exact .done .none

theorem customInputs :
    Related K (fun m => List.Forall₂ (K.Values m)) n .customInputs .customInputs := by
  refine mapM (Q := K.Values) (fun m k a b hmk => Values.mono hmk) _ fun i _ m _ => ?_
  refine (operand? _).bind fun _ a b _ hab => ?_
  cases hab with
  | some h => exact castTo float4 h
  | none => exact .done (.zero float4)

theorem rememberAll (he : K.effects) {values : List (Option (Value ρ))}
    {values' : List (Option (Value σ))} (h : List.Forall₂ (Option.Rel (K.Values n)) values values')
    (start : Nat) :
    Related K (fun _ _ _ => True) n
      ((values.zipIdx start).forM fun (v, i) => setMemory (CustomCode.outputBox i) v)
      ((values'.zipIdx start).forM fun (v, i) => setMemory (CustomCode.outputBox i) v) := by
  induction h generalizing start with
  | nil => exact .done trivial
  | cons hv _ ih => exact .remember he hv (ih (start + 1))

theorem customBlock (he : K.effects) (site : Site) {text : String}
    (hf : Local.Free text.toList ∨ K.names) :
    Related K (fun m => List.Forall₂ (Option.Rel (K.Values m))) n (.customBlock site text)
      (.customBlock site text) := by
  refine .use ?_
  refine (customOutputs site).bind fun m outputs outputs' _ ho => ?_
  refine customInputs.bind fun k inputs inputs' hk hi => .comment ?_
  have ho := ho.imp fun a b => optionRel_mono hk
  refine .block he ?_ ?_
  · refine Template.render_rel ?_ ?_ hf
    · exact List.forall₂_map_left_iff.mpr (List.forall₂_map_right_iff.mpr
        (hi.imp fun a b h => .some h.code))
    · refine List.forall₂_map_left_iff.mpr (List.forall₂_map_right_iff.mpr (ho.imp fun a b h => ?_))
      cases h with
      | some h => exact .some h.code
      | none => exact .none
  · exact (rememberAll he ho 0).bind fun l _ _ hl _ => .done (ho.imp fun a b => optionRel_mono hl)

theorem customCode (he : K.effects) (site : Site)
    (hf : ∀ text, (site.node.param? 0).bind Param.text? = some text →
      Local.Free text.toList ∨ K.names) :
    Related K K.Values n (.customCode site) (.customCode site) := by
  unfold Recipe.customCode
  split
  · exact invalidOutput site
  next i _ =>
    dsimp only
    split
    · exact .done (.zero _)
    · have hfree :
          Local.Free (((site.node.param? 0).bind Param.text?).getD "").toList ∨ K.names := by
        cases ht : (site.node.param? 0).bind Param.text? with
        | none => exact .inl (by decide)
        | some text => exact hf text ht
      refine (customBlock he site hfree).bind fun m outputs outputs' _ ho => ?_
      have hi := optionRel_getElem? ho i
      generalize outputs[i]? = a at hi ⊢
      generalize outputs'[i]? = b at hi ⊢
      cases site.node.box? site.box with
      | none => exact .done (.zero _)
      | some _ =>
        rcases hi with ⟨⟨h⟩ | _⟩ | _
        · exact .done h
        · exact .done (.zero _)
        · exact .done (.zero _)

end Recipe.Related

/-! ### All kinds -/

/-- The text of a custom code node, if it has one. -/
def Node.customText? (n : Node) : Option String :=
  if n.kind = .customCode then (n.param? 0).bind Param.text? else none

/-- Kinds whose recipes only ask for operands, declare locals and make notes. -/
def NodeKind.isPure : NodeKind → Bool
  | customCode | interpolateVsToPs => false
  | _ => true

open Recipe.Related ValueType in
/-- The recipe of a box respects every relation between codes, provided that its custom code does
not name locals. -/
theorem Site.recipe_related {ρ σ : Type} (K : CodeRelation ρ σ) (n : Nat) (site : Site)
    (domain : Domain) (stage : Stage) (he : site.node.kind.isPure = false → K.effects)
    (hf : ∀ text, site.node.customText? = some text →
      Local.Free text.toList ∨ K.names) :
    Recipe.Related K K.Values n (site.recipe domain stage) (site.recipe domain stage) := by
  unfold Site.recipe
  cases hk : site.node.kind with
  | customCode =>
    refine customCode (he (by rw [hk]; rfl)) site fun text ht => hf text ?_
    rw [Node.customText?, if_pos hk, ht]
  | interpolateVsToPs => exact interpolate (he (by rw [hk]; rfl)) stage
  | view =>
    dsimp only
    split
    · exact text (by decide)
    · exact text (by decide)
    · exact text (by decide)
    · exact invalidOutput site
  | screenPosition =>
    dsimp only
    split
    · exact text (by decide)
    · exact newLocal (K.text _ (by decide))
    · exact invalidOutput site
  | screenSize =>
    dsimp only
    split
    · exact text (by decide)
    · exact text (by decide)
    · exact invalidOutput site
  | preSkinnedLocalPosition =>
    cases stage with
    | vertex => exact text (by decide)
    | pixel => exact .done (.zero _)
  | preSkinnedLocalNormal =>
    cases stage with
    | vertex => exact text (by decide)
    | pixel => exact .done (.zero _)
  | terrainHolesMask =>
    dsimp only
    split
    · exact text (by decide)
    · exact .done (.one _)
  | terrainLayerWeight => exact terrainLayerWeight domain site
  | cameraDepthFade => exact cameraDepthFade site
  | depthFade => exact depthFade site
  | blendNormals => exact blendNormals
  | vertexColor => exact .use (text (by decide))
  | cameraVector => exact newLocal (K.text _ (by decide))
  | depth => exact newLocal (K.text _ (by decide))
  | materialOutput => exact .done (.zero _)
  | functionOutput => exact .done (.zero _)
  | materialFunction => exact .done (.zero _)
  | functionInput => exact .done (.zero _)
  | bool => exact constant site
  | integer => exact constant site
  | float => exact constant site
  | vector2 => exact constant site
  | vector3 => exact constant site
  | vector4 => exact constant site
  | add => exact binary .add site
  | subtract => exact binary .subtract site
  | multiply => exact binary .multiply site
  | divide => exact binary .divide site
  | min => exact binary .min site
  | max => exact binary .max site
  | dot => exact binary .dot site
  | abs => exact unary (by decide) site
  | saturate => exact unary (by decide) site
  | normalize => exact unary (by decide) site
  | _ => exact text (by decide)

end ShaderGraph
