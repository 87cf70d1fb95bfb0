import ShaderGraph.Evaluation.Kinds
import ShaderGraph.Proofs.Tokens

/-! Relations between code over two types of references that are kept by everything recipes do with
code, and what it means for two recipes to do the same up to such a relation. -/

namespace ShaderGraph

/-- Whether a unit of code can be part of an identifier. -/
def Atom.isWord {ρ : Type} : Atom ρ → Bool
  | char c => Template.isIdentifierChar c
  | ref _ => true

namespace Code

variable {ρ : Type}

/-- Between the two codes an identifier neither goes on nor could. -/
def Separated (a b : Code ρ) : Prop :=
  ∀ x ∈ a.getLast?, ∀ y ∈ b.head?, x.isWord = true → y.isWord = false

/-- Text that can stand before any code. -/
def Opening (t : String) : Prop :=
  Local.Free t.toList ∧ t.toList.getLast?.any (!Template.isIdentifierChar ·) = true

/-- Text that can stand after any code. -/
def Closing (t : String) : Prop :=
  Local.Free t.toList ∧ t.toList.head?.any (!Template.isIdentifierChar ·) = true

instance (t : String) : Decidable (Opening t) := inferInstanceAs (Decidable (_ ∧ _))

instance (t : String) : Decidable (Closing t) := inferInstanceAs (Decidable (_ ∧ _))

theorem separated_of_last {a b : Code ρ} (h : ∀ x ∈ a.getLast?, x.isWord = false) :
    Separated a b := by
  intro x hx y _ hw
  simp [h x hx] at hw

theorem separated_of_head {a b : Code ρ} (h : ∀ y ∈ b.head?, y.isWord = false) : Separated a b :=
  fun _ _ y hy _ => h y hy

theorem Opening.separated {t : String} (h : Opening t) (a c : Code ρ) :
    Separated (a ++ ofString t) c := by
  obtain ⟨z, hz, hw⟩ := (Option.any_eq_true _ _).mp h.2
  refine separated_of_last fun x hx => ?_
  have hlast : (ofString t : Code ρ).getLast? = some (.char z) := by
    rw [ofString, List.getLast?_map, hz]
    rfl
  rw [List.getLast?_append, hlast] at hx
  obtain rfl : x = .char z := by simpa using hx.symm
  simpa [Atom.isWord] using hw

theorem Closing.separated {t : String} (h : Closing t) (a c : Code ρ) :
    Separated a (ofString t ++ c) := by
  obtain ⟨z, hz, hw⟩ := (Option.any_eq_true _ _).mp h.2
  refine separated_of_head fun y hy => ?_
  have hhead : (ofString t : Code ρ).head? = some (.char z) := by
    rw [ofString, List.head?_map, hz]
    rfl
  rw [List.head?_append, hhead] at hy
  obtain rfl : y = .char z := by simpa using hy.symm
  simpa [Atom.isWord] using hw

end Code

/-- A relation between codes, given how many locals there are. -/
structure CodeRelation (ρ σ : Type) where
  rel : Nat → Code ρ → Code σ → Prop
  /-- Whether recipes may write blocks of code, claim interpolants and set what is remembered. -/
  effects : Prop
  /-- Whether text may contain names of locals. -/
  names : Prop
  mono : ∀ {m n c d}, m ≤ n → rel m c d → rel n c d
  anyText : ∀ {n} (t : String), Local.Free t.toList ∨ names → rel n (.ofString t) (.ofString t)
  append : ∀ {n a b a' b'}, rel n a a' → rel n b b' → a.Separated b → rel n (a ++ b) (a' ++ b')
  isOperand : ∀ {n c d}, rel n c d → c.isOperand = d.isOperand

namespace CodeRelation

section Code

variable {ρ σ : Type} {K : CodeRelation ρ σ} {n : Nat} {a b c : Code ρ} {a' b' d : Code σ}
  {t : String}

theorem text (K : CodeRelation ρ σ) (t : String) (h : Local.Free t.toList) :
    K.rel n (.ofString t) (.ofString t) :=
  K.anyText t (.inl h)

theorem opening (h : Code.Opening t) (hc : K.rel n c d) :
    K.rel n (Code.ofString t ++ c) (Code.ofString t ++ d) :=
  K.append (K.text t h.1) hc (h.separated [] c)

theorem closing (h : Code.Closing t) (hc : K.rel n c d) :
    K.rel n (c ++ Code.ofString t) (d ++ Code.ofString t) :=
  K.append hc (K.text t h.1) (by simpa using h.separated c [])

theorem between (ho : Code.Opening t) (hc : Code.Closing t) (ha : K.rel n a a')
    (hb : K.rel n b b') :
    K.rel n (a ++ Code.ofString t ++ b) (a' ++ Code.ofString t ++ b') :=
  K.append (closing hc ha) hb (ho.separated a b)

theorem operand (h : K.rel n c d) : K.rel n c.operand d.operand := by
  unfold Code.operand
  rw [K.isOperand h]
  split
  · exact h
  · exact closing (by decide) (opening (by decide) h)

end Code

/-- Related values: the same literal, or related code of the same type. -/
inductive Values {ρ σ : Type} (K : CodeRelation ρ σ) (n : Nat) : Value ρ → Value σ → Prop
  | literal (l : Literal) : Values K n (.literal l) (.literal l)
  | expr {type c d} (h : K.rel n c d) : Values K n (.expr type c) (.expr type d)

end CodeRelation

/-! ### The text of literals -/

namespace Literal

theorem toString_self (s : String) : toString s = s := rfl

theorem toList_pushn (s : String) (c : Char) (n : Nat) :
    (s.pushn c n).toList = s.toList ++ List.replicate n c := by
  unfold String.pushn
  induction n with
  | zero => simp [Nat.repeat]
  | succ n ih => rw [Nat.repeat, String.toList_push, ih, List.replicate_succ', List.append_assoc]

section

variable {c : Char}

theorem not_mem_toDigits (hc : c.isDigit = false) (n : Nat) : c ∉ Nat.toDigits 10 n := by
  intro h
  simp [Local.isDigit_of_mem_digits h] at hc

theorem not_mem_positional (hc : c.isDigit = false) (hp : c ≠ '.') (d : Decimal) :
    c ∉ d.positional.toList := by
  have hzero : c ≠ '0' := by
    rintro rfl
    cases hc
  have hzeros (k : Nat) : c ∉ ("".pushn '0' k).toList := by
    rw [toList_pushn]
    simp [hzero]
  simp [Decimal.positional, not_mem_toDigits hc, toString_self, hzeros, hp]

/-- Numbers are written with digits, a sign and a point; infinity and what is no number have
names. -/
theorem not_mem_literalText (hc : c.isDigit = false)
    (ho : c ∉ ['-', '.', 'N', 'a', 'i', 'n', 'f']) (x : Binary32) : c ∉ x.literalText.toList := by
  simp only [List.mem_cons, List.not_mem_nil, or_false, not_or] at ho
  obtain ⟨hminus, hpoint, hN, ha, hi, hn, hf⟩ := ho
  have hzero : c ≠ '0' := by
    rintro rfl
    cases hc
  unfold Binary32.literalText
  have hsign : c ∉ (if x.negative then "-" else "" : String).toList := by
    split
    · simpa using hminus
    · simp
  generalize (if x.negative then "-" else "" : String) = sign at hsign ⊢
  split_ifs
  · simp [hN, ha]
  · simp [hsign, hi, hn, hf]
  · simp [not_mem_toDigits hc, toString_self, hsign, hpoint, hzero]
  · simp [not_mem_positional hc hpoint, hsign]

end

/-- The name of a vector type and its components. -/
theorem free_constructor {name rest : String} (hn : Code.Opening name) (hr : 'l' ∉ rest.toList) :
    Local.Free (name ++ rest).toList := by
  rw [String.toList_append]
  refine hn.1.append (Local.free_of_not_mem hr) (Template.separated_of_last fun x hx => ?_)
  obtain ⟨z, hz, hw⟩ := (Option.any_eq_true _ _).mp hn.2
  obtain rfl : z = x := Option.some.inj (hz.symm.trans hx)
  simpa using hw

theorem free_text (l : Literal) : Local.Free l.text.toList := by
  have hliteral := not_mem_literalText (c := 'l') (by decide) (by decide)
  cases l with
  | bool b => cases b <;> decide
  | int i =>
    apply Local.free_of_not_mem
    have hdigits := not_mem_toDigits (c := 'l') (by decide)
    cases h : i.toInt <;> simp [text, toString, Int.repr, h, hdigits]
  | uint u =>
    apply Local.free_of_not_mem
    simp [text, not_mem_toDigits (c := 'l') (by decide), toString_self]
  | float x => exact Local.free_of_not_mem (hliteral x)
  | float2 x y =>
    simp only [text, String.append_assoc]
    exact free_constructor (by decide) (by simp [hliteral, toString_self])
  | float3 x y z =>
    simp only [text, String.append_assoc]
    exact free_constructor (by decide) (by simp [hliteral, toString_self])
  | float4 x y z w =>
    simp only [text, String.append_assoc]
    exact free_constructor (by decide) (by simp [hliteral, toString_self])

end Literal

/-! ### Values and casts -/

namespace CodeRelation

variable {ρ σ : Type} {K : CodeRelation ρ σ} {m n : Nat} {v : Value ρ} {w : Value σ}

namespace Values

theorem mono (hmn : m ≤ n) (h : K.Values m v w) : K.Values n v w := by
  cases h with
  | literal l => exact .literal l
  | expr h => exact .expr (K.mono hmn h)

theorem type_eq (h : K.Values n v w) : v.type = w.type := by
  cases h <;> rfl

theorem literal?_eq (h : K.Values n v w) : v.literal? = w.literal? := by
  cases h <;> rfl

theorem code (h : K.Values n v w) : K.rel n v.code w.code := by
  cases h with
  | literal l => exact K.text _ l.free_text
  | expr h => exact h

theorem zero (type : ValueType) : K.Values n (.zero type) (.zero type) := by
  cases type with
  | matrix => exact .expr (K.text _ (by decide))
  | texture => exact .expr (K.text _ (by decide))
  | _ => exact .literal _

theorem one (type : ValueType) : K.Values n (.one type) (.one type) := by
  cases type with
  | matrix => exact .expr (K.text _ (by decide))
  | texture => exact .expr (K.text _ (by decide))
  | _ => exact .literal _

theorem getD {a : Option (Value ρ)} {b : Option (Value σ)} (hab : Option.Rel (K.Values n) a b)
    (h : K.Values n v w) : K.Values n (a.getD v) (b.getD w) := by
  cases hab with
  | some hab => exact hab
  | none => exact h

theorem paramValue? (site : Site) (i : Nat) :
    Option.Rel (K.Values n) (site.paramValue? i) (site.paramValue? i) := by
  unfold Site.paramValue?
  cases site.node.param? i with
  | none => exact .none
  | some p =>
    rw [Option.bind_some, Option.bind_some, Param.value?, Param.value?]
    cases p.literal? with
    | none => exact .none
    | some l => exact .some (.literal l)

end Values

theorem closing_swizzle (count : Nat) {t : String} (ht : 'l' ∉ t.toList) :
    Code.Closing s!".{Conversion.swizzle count}{t}" := by
  have hs : 'l' ∉ (Conversion.swizzle count).toList := by
    rw [Conversion.swizzle, String.toList_ofList]
    exact fun h => absurd (List.mem_of_mem_take h) (by decide)
  refine ⟨Local.free_of_not_mem ?_, ?_⟩
  · simp [Literal.toString_self, hs, ht]
  · simp [Literal.toString_self, Template.isIdentifierChar]

theorem convert (conversion : Conversion) (target : ValueType) {c : Code ρ} {d : Code σ}
    (h : K.rel n c d) : K.rel n (conversion.apply target c) (conversion.apply target d) := by
  have htype : Code.Opening s!"({target.name})(" ∧ Code.Opening s!"{target.name}(" := by
    rcases target with _ | _ | _ | (_ | _ | _ | _) | _ | _ <;> decide
  cases conversion with
  | convert => exact closing (by decide) (opening htype.1 h)
  | first => exact closing (by decide) (operand h)
  | convertFirst => exact closing (by decide) (opening htype.1 (operand h))
  | leading count =>
    refine closing ?_ (operand h)
    simpa [Literal.toString_self] using closing_swizzle count (t := "") (by decide)
  | extend count zeros =>
    refine closing ?_ (opening htype.2 (operand h))
    have hzeros : 'l' ∉ (String.join (List.replicate zeros ", 0.0") ++ ")").toList := by
      simp [String.toList_join]
    simpa [Literal.toString_self, String.append_assoc] using closing_swizzle count hzeros

/-- Related values can be cast to the same types, with related results. -/
theorem cast (h : K.Values n v w) (target : ValueType) :
    (∃ v' w', v.cast target = .ok v' ∧ w.cast target = .ok w' ∧ K.Values n v' w') ∨
      ∃ e, v.cast target = .error e ∧ w.cast target = .error e := by
  unfold Value.cast
  rw [h.type_eq, h.literal?_eq]
  split
  · exact .inl ⟨v, w, rfl, rfl, h⟩
  · split
    · split
      · exact .inl ⟨_, _, rfl, rfl, .literal _⟩
      · exact .inl ⟨_, _, rfl, rfl, .expr (convert _ target h.code)⟩
    · exact .inr ⟨_, rfl, rfl⟩

end CodeRelation

/-! ### Recipes -/

/-- What can be wrong with a call, as opposed to a node of any other kind. -/
inductive Cause.OfCall : Cause → Prop
  | unloadable (id : AssetId) : OfCall (.missingOrInvalidAsset id)
  | malformed (text : String) : OfCall (.recursiveOrMalformedCall text)

/-- Two recipes that make the same requests with related code, whatever related answers they get,
and end with results related by `Q`. The number of locals goes up with each declaration, and by any
amount while an operand is evaluated. -/
inductive Recipe.Related {ρ σ α β : Type} (K : CodeRelation ρ σ) (Q : Nat → α → β → Prop) :
    Nat → Recipe ρ α → Recipe σ β → Prop
  | done {n a b} (h : Q n a b) : Related K Q n (.done a) (.done b)
  | operand {n box next next'}
      (h : ∀ m v w, n ≤ m → Option.Rel (K.Values m) v w → Related K Q m (next v) (next' w)) :
      Related K Q n (.operand box next) (.operand box next')
  | declare {n type init init' next next'} (hi : K.rel n init init')
      (h : ∀ v w, K.Values (n + 1) v w → Related K Q (n + 1) (next v) (next' w)) :
      Related K Q n (.declare type init next) (.declare type init' next')
  | block {n body body' next next'} (he : K.effects) (hb : K.rel n body body')
      (h : Related K Q n next next') : Related K Q n (.block body next) (.block body' next')
  | comment {n text next next'} (h : Related K Q n next next') :
      Related K Q n (.comment text next) (.comment text next')
  | report {n cause next next'} (hc : ¬ cause.OfCall)
      (h : Related K Q n next next') : Related K Q n (.report cause next) (.report cause next')
  | use {n feature next next'} (h : Related K Q n next next') :
      Related K Q n (.use feature next) (.use feature next')
  | sample {n texture next next'} (h : Related K Q n next next') :
      Related K Q n (.sample texture next) (.sample texture next')
  | remember {n box value value' next next'} (he : K.effects)
      (hv : Option.Rel (K.Values n) value value') (h : Related K Q n next next') :
      Related K Q n (.remember box value next) (.remember box value' next')
  | claim {n input next next'} (he : K.effects) (h : ∀ c, Related K Q n (next c) (next' c)) :
      Related K Q n (.claim input next) (.claim input next')

namespace Recipe.Related

variable {ρ σ α β γ δ : Type} {K : CodeRelation ρ σ} {Q : Nat → α → β → Prop}
  {P : Nat → γ → δ → Prop} {n : Nat} {r : Recipe ρ α} {r' : Recipe σ β}

theorem bind {f : α → Recipe ρ γ} {g : β → Recipe σ δ} (h : Related K Q n r r')
    (hf : ∀ m a b, n ≤ m → Q m a b → Related K P m (f a) (g b)) :
    Related K P n (r >>= f) (r' >>= g) := by
  change Related K P n (r.bind f) (r'.bind g)
  induction h with
  | done h => exact hf _ _ _ (Nat.le_refl _) h
  | operand _ ih =>
    refine .operand fun m v w hm hv => ih m v w hm hv fun k a b hk => ?_
    exact hf k a b (Nat.le_trans hm hk)
  | declare hi _ ih =>
    refine .declare hi fun v w hv => ih v w hv fun k a b hk => ?_
    exact hf k a b (Nat.le_of_succ_le hk)
  | block he hb _ ih => exact .block he hb (ih hf)
  | comment _ ih => exact .comment (ih hf)
  | report hc _ ih => exact .report hc (ih hf)
  | use _ ih => exact .use (ih hf)
  | sample _ ih => exact .sample (ih hf)
  | remember he hv _ ih => exact .remember he hv (ih hf)
  | claim he _ ih => exact .claim he fun c => ih c hf

/-! Steps of recipes -/

theorem operand? (box : BoxId) :
    Related K (fun m => Option.Rel (K.Values m)) n (.operand? box) (.operand? box) :=
  .operand fun _ _ _ _ hv => .done hv

theorem newLocal {type : ValueType} {init : Code ρ} {init' : Code σ} (h : K.rel n init init') :
    Related K K.Values n (.newLocal type init) (.newLocal type init') :=
  .declare h fun _ _ hv => .done hv

theorem castTo {v : Value ρ} {w : Value σ} (type : ValueType) (h : K.Values n v w) :
    Related K K.Values n (.castTo type v) (.castTo type w) := by
  unfold Recipe.castTo
  rcases CodeRelation.cast h type with ⟨v', w', hv, hw, h'⟩ | ⟨e, hv, hw⟩
  · rw [hv, hw]
    exact .done h'
  · rw [hv, hw]
    exact .report nofun (.done (.zero type))

theorem operandOr {v : Value ρ} {w : Value σ} (box : BoxId) (h : ∀ m, K.Values m v w) :
    Related K K.Values n (.operandOr box v) (.operandOr box w) :=
  (operand? box).bind fun m _ _ _ hab => .done (.getD hab (h m))

theorem operandOrParam (site : Site) (box : BoxId) (param : Nat) :
    Related K K.Values n (.operandOrParam site box param) (.operandOrParam site box param) :=
  operandOr box fun _ => .getD (CodeRelation.Values.paramValue? site param) (.zero _)

theorem invalidOutput (site : Site) :
    Related K K.Values n (.invalidOutput site) (.invalidOutput site) :=
  .report nofun (.done (.zero _))

/-- The same step for every member of a list. -/
theorem mapM {ι : Type} {f : ι → Recipe ρ α} {g : ι → Recipe σ β}
    (hQ : ∀ m k a b, m ≤ k → Q m a b → Q k a b) (xs : List ι)
    (h : ∀ x ∈ xs, ∀ m, n ≤ m → Related K Q m (f x) (g x)) :
    Related K (fun m => List.Forall₂ (Q m)) n (xs.mapM f) (xs.mapM g) := by
  suffices hloop : ∀ m as bs, n ≤ m → List.Forall₂ (Q m) as bs →
      Related K (fun k => List.Forall₂ (Q k)) m (List.mapM.loop f xs as) (List.mapM.loop g xs bs) by
    exact hloop n [] [] (Nat.le_refl n) .nil
  induction xs with
  | nil => exact fun m as bs _ hab => .done (List.rel_reverse hab)
  | cons x xs ih =>
    intro m as bs hm hab
    refine (h x List.mem_cons_self m hm).bind fun k a b hk ha => ?_
    refine ih (fun y hy => h y (List.mem_cons_of_mem x hy)) k _ _ (Nat.le_trans hm hk) ?_
    exact .cons ha (hab.imp fun a b => hQ m k a b hk)

end Recipe.Related

end ShaderGraph
