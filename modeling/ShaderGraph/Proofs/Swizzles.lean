import ShaderGraph.Proofs.Lexing

/-! Conversions of vectors in the text they generate. The leading components are chosen by a member
access at the end of the text. It applies to the whole expression unless that is a cast that stands
without parentheses: a cast binds weaker than the member access. -/

namespace ShaderGraph

/-- The names of all components. -/
def Dim.selection : Dim → String
  | scalar => "x"
  | d2 => "xy"
  | d3 => "xyz"
  | d4 => "xyzw"

/-! ### Member accesses at the end of a text -/

namespace Expr

open Code

variable {e : Expr}

def isCast : Expr → Bool
  | cast .. => true
  | _ => false

/-- What the text becomes by a member access at its end: a cast passes it on to its operand. -/
def accessed : Expr → String → Expr
  | cast type e, field => cast type (e.accessed field)
  | e, field => member e field

theorem lexemes_accessed (e : Expr) (field : String) :
    (e.accessed field).lexemes = e.lexemes ++ [.symbol ".", .name field] := by
  induction e with
  | cast type e ih => simp [accessed, lexemes, ih]
  | _ => rfl

theorem accessed_of_not_isCast (h : e.isCast = false) : e.accessed = e.member := by
  cases e with
  | cast => cases h
  | _ => rfl

theorem rank_accessed (e : Expr) (field : String) : prefixRank ≤ (e.accessed field).rank := by
  cases e <;> simp [accessed, rank, prefixRank, postfixRank]

theorem isWellFormed_member {field : String} :
    (member e field).isWellFormed = true ↔
      e.isWellFormed = true ∧ e.rank = postfixRank ∧ isIdentifier field = true := by
  simp [isWellFormed, and_assoc]

theorem isWellFormed_accessed (he : e.isWellFormed = true)
    (h : isOperandFrom 0 (ofChars e.chars) = true) {field : String}
    (hf : isIdentifier field = true) : (e.accessed field).isWellFormed = true := by
  induction e with
  | cast type a ih =>
    simp only [isWellFormed, Bool.and_eq_true] at he
    obtain hrank | ⟨_, _, heq, ha⟩ := rank_of_isOperandFrom (by simp [isWellFormed, he]) h
    · cases hrank
    · obtain ⟨rfl, rfl⟩ := Expr.cast.inj heq
      simp [accessed, isWellFormed, he.1.1, ih he.1.2 ha, rank_accessed]
  | _ =>
    obtain hrank | ⟨_, _, heq, -⟩ := rank_of_isOperandFrom he h
    · exact isWellFormed_member.mpr ⟨he, hrank, hf⟩
    · cases heq

/-- The expression without its parentheses. -/
def strip : Expr → Expr
  | name s => name s
  | number s => number s
  | paren e => e.strip
  | member e field => member e.strip field
  | index e i => index e.strip i.strip
  | invoke f => invoke f.strip
  | call f args => call f.strip args.strip
  | construct type args => construct type args.strip
  | cast type e => cast type e.strip
  | unary op e => unary op e.strip
  | binary op l r => binary op l.strip r.strip

/-- The expression and zeros after it, as arguments. -/
def padded (e : Expr) : Nat → Expr
  | 0 => e
  | n + 1 => binary "," (e.padded n) (number "0.0")

/-- A vector converted to another type, given how its components are selected. -/
def converted (dim : Dim) (target : ValueType) (select : String → Expr) : Expr :=
  match target with
  | .float d =>
    if d = .scalar then select "x"
    else if d.components < dim.components then select d.selection
    else construct target.name ((select dim.selection).padded (d.components - dim.components))
  | _ => cast target.name (paren (select "x"))

end Expr

/-! ### Conversions -/

/-- The expression that a conversion makes of another, given how its components are selected. -/
def Conversion.expr (conversion : Conversion) (target : ValueType) (e : Expr)
    (select : String → Expr) : Expr :=
  match conversion with
  | convert => .cast target.name (.paren e)
  | first => select "x"
  | convertFirst => .cast target.name (.paren (select "x"))
  | leading count => select (swizzle count)
  | extend count zeros => .construct target.name ((select (swizzle count)).padded zeros)

/-- How many components are selected. -/
def Conversion.count : Conversion → Nat
  | convert | first | convertFirst => 1
  | leading count | extend count _ => count

theorem ValueType.reads_name (type : ValueType) :
    Lexeme.readFrom .none type.name.toList = some [.name type.name] ∧
      Expr.isTypeName type.name = true := by
  have hall : ∀ type ∈ ValueType.all,
      Lexeme.readFrom .none type.name.toList = some [.name type.name] ∧
        Expr.isTypeName type.name = true := by decide +kernel
  exact hall type (by rcases type with _ | _ | _ | (_ | _ | _ | _) | _ | _ <;> decide)

section

variable {code : Code Local} {e : Expr}

/-- How components of code that is read as an expression are selected. -/
def Code.selected (code : Code Local) (e : Expr) : String → Expr :=
  if code.isOperand then e.accessed else e.paren.member

open Lexeme

theorem Expr.Reads.isOperandFrom_chars (he : Expr.Reads code.source e) (h : code.isOperand = true) :
    Code.isOperandFrom 0 (Code.ofChars e.chars) = true := by
  have hchars : e.chars = code.source.toList.filter fun c => !isBlank c := chars_readFrom he.1
  rw [hchars]
  exact Code.isOperandFrom_filter ((Code.isOperandFrom_source 0 code).trans h)

theorem Code.readFrom_selected (he : Expr.Reads code.source e) {fs : List Char}
    (hf : fs.all isNameChar = true) :
    readFrom .none (code.operand.source.toList ++ '.' :: 'x' :: fs) =
      some (code.selected e (.ofList ('x' :: fs))).lexemes := by
  have hswizzle := Follows.swizzle hf .nil
  rw [List.append_nil] at hswizzle
  unfold operand selected
  split
  · rw [Expr.lexemes_accessed]
    exact readFrom_append he.1 hswizzle
  · have hparen := readFrom_call readFrom_nil he.1
    simpa [toList_source_append, toList_source_ofString, Expr.lexemes] using
      readFrom_append hparen hswizzle

theorem Code.isWellFormed_selected (he : Expr.Reads code.source e) {field : String}
    (hf : Expr.isIdentifier field = true) : (code.selected e field).isWellFormed = true := by
  unfold selected
  split
  · next h => exact Expr.isWellFormed_accessed he.2 (he.isOperandFrom_chars h) hf
  · exact Expr.isWellFormed_member.mpr ⟨he.2, rfl, hf⟩

theorem Expr.lexemes_padded (e : Expr) (n : Nat) :
    (e.padded n).lexemes =
      e.lexemes ++ (List.replicate n [Lexeme.symbol ",", .number "0.0"]).flatten := by
  induction n with
  | zero => simp [padded]
  | succ n ih => simp [padded, lexemes, ih, List.replicate_succ']

theorem Expr.isWellFormed_cast_paren {type : String} :
    (cast type (paren e)).isWellFormed = true ↔
      isTypeName type = true ∧ e.isWellFormed = true := by
  simp [isWellFormed, rank, prefixRank, postfixRank]

theorem Expr.isWellFormed_padded (he : e.isWellFormed = true) (n : Nat) :
    (e.padded n).isWellFormed = true := by
  induction n with
  | zero => exact he
  | succ n ih =>
    exact isWellFormed_binary.mpr ⟨0, rfl, Nat.zero_le _, by decide, ih, by decide⟩

theorem Lexeme.readFrom_zeros {a : List Char} {ls : List Lexeme} (ha : readFrom .none a = some ls)
    (n : Nat) :
    readFrom .none (a ++ (List.replicate n ", 0.0").flatMap String.toList) =
      some (ls ++ (List.replicate n [Lexeme.symbol ",", .number "0.0"]).flatten) := by
  induction n with
  | zero => simpa using ha
  | succ n ih =>
    have hzero : Follows ", 0.0".toList [Lexeme.symbol ",", .number "0.0"] :=
      .mark (c := ',') rfl (by decide) (by decide +kernel)
    simpa [List.replicate_succ'] using readFrom_append ih hzero

/-- The components of every swizzle can be selected. -/
theorem Code.reads_swizzle (he : Expr.Reads code.source e) {count : Nat} (hcount : 0 < count) :
    readFrom .none (code.operand.source.toList ++ '.' :: (Conversion.swizzle count).toList) =
        some (code.selected e (Conversion.swizzle count)).lexemes ∧
      (code.selected e (Conversion.swizzle count)).isWellFormed = true := by
  obtain ⟨k, rfl⟩ := Nat.exists_eq_succ_of_ne_zero hcount.ne'
  have hall : (['y', 'z', 'w'].take k).all isNameChar = true := by
    have h : ['y', 'z', 'w'].all isNameChar = true := by decide
    exact List.all_eq_true.mpr fun c hc => List.all_eq_true.mp h c (List.mem_of_mem_take hc)
  have hswizzle : (Conversion.swizzle (k + 1)).toList = 'x' :: ['y', 'z', 'w'].take k := by
    simp [Conversion.swizzle]
  have hselect := readFrom_selected he hall
  rw [← hswizzle, String.ofList_toList] at hselect
  refine ⟨hselect, isWellFormed_selected he ?_⟩
  rw [Expr.isIdentifier, hswizzle, List.all_cons, hall]
  decide

/-- The text that a conversion generates is read as the expression that it makes. -/
theorem Conversion.reads_apply (conversion : Conversion) (target : ValueType)
    (hcount : 0 < conversion.count) (he : Expr.Reads code.source e) :
    Expr.Reads (conversion.apply target code).source
      (conversion.expr target e (code.selected e)) := by
  obtain ⟨htype, hname⟩ := target.reads_name
  obtain ⟨hselect, hselected⟩ := Code.reads_swizzle he hcount
  have hcast := readFrom_call readFrom_nil htype
  have hx : swizzle 1 = "x" := by decide
  cases conversion with
  | convert =>
    refine ⟨?_, Expr.isWellFormed_cast_paren.mpr ⟨hname, he.2⟩⟩
    simpa [Lexeme.read, apply, Code.toList_source_append, Code.toList_source_ofString,
      Literal.toString_self, expr, Expr.lexemes] using readFrom_call hcast he.1
  | first =>
    simp only [count, hx] at hselect hselected
    refine ⟨?_, hselected⟩
    simpa [Lexeme.read, apply, Code.toList_source_append, Code.toList_source_ofString, expr]
      using hselect
  | convertFirst =>
    simp only [count, hx] at hselect hselected
    refine ⟨?_, Expr.isWellFormed_cast_paren.mpr ⟨hname, hselected⟩⟩
    simpa [Lexeme.read, apply, Code.toList_source_append, Code.toList_source_ofString,
      Literal.toString_self, expr, Expr.lexemes] using readFrom_call hcast hselect
  | leading k =>
    simp only [count] at hselect hselected
    refine ⟨?_, hselected⟩
    simpa [Lexeme.read, apply, Code.toList_source_append, Code.toList_source_ofString,
      Literal.toString_self, expr] using hselect
  | extend k zeros =>
    simp only [count] at hselect hselected
    refine ⟨?_, by simp [expr, Expr.isWellFormed, hname, Expr.isWellFormed_padded hselected]⟩
    have h := readFrom_call htype (readFrom_zeros hselect zeros)
    simpa [Lexeme.read, apply, Code.toList_source_append, Code.toList_source_ofString,
      Literal.toString_self, expr, Expr.lexemes, Expr.lexemes_padded] using h

end

theorem Dim.swizzle_components (d : Dim) : Conversion.swizzle d.components = d.selection := by
  cases d <;> decide

theorem Dim.one_lt_components {d : Dim} (h : d ≠ .scalar) : 1 < d.components := by
  cases d with
  | scalar => exact absurd rfl h
  | _ => decide

/-- The conversion of a vector is the one its type and the target call for. -/
theorem Conversion.expr_between {dim : Dim} {target : ValueType} {m : Nat} (hdim : dim ≠ .scalar)
    (hm : target.components? = some m) (e : Expr) (select : String → Expr) :
    0 < (between dim.components m target).count ∧
      (between dim.components m target).expr target e select =
        Expr.converted dim target select := by
  have hn := Dim.one_lt_components hdim
  cases target with
  | matrix | texture => cases hm
  | bool | int | uint =>
    obtain rfl := Option.some.inj hm
    simp [between, hn.ne', count, expr, Expr.converted]
  | float d =>
    obtain rfl : d.components = m := Option.some.inj hm
    by_cases hd : d = .scalar
    · subst hd
      have hone : Dim.scalar.components = 1 := rfl
      simp [between, hn.ne', hone, count, expr, Expr.converted]
    · have hm := Dim.one_lt_components hd
      by_cases hlt : d.components < dim.components
      · simp [between, hn.ne', hm.ne', hlt, count, expr, Expr.converted, hd,
          Dim.swizzle_components]
        omega
      · simp [between, hn.ne', hm.ne', hlt, count, expr, Expr.converted, hd,
          Dim.swizzle_components]
        omega

theorem Expr.padded_inj {e e' : Expr} {n : Nat} (h : e.padded n = e'.padded n) : e = e' := by
  induction n with
  | zero => exact h
  | succ n ih => exact ih (Expr.binary.inj h).2.1

/-- A converted vector tells how its components were selected. -/
theorem Expr.exists_of_converted {dim : Dim} {target : ValueType} {select select' : String → Expr}
    (h : converted dim target select = converted dim target select') :
    ∃ field, select field = select' field := by
  unfold converted at h
  split at h
  · split_ifs at h
    · exact ⟨_, h⟩
    · exact ⟨_, h⟩
    · exact ⟨_, padded_inj (Expr.construct.inj h).2⟩
  · exact ⟨_, Expr.paren.inj (Expr.cast.inj h).2⟩

theorem Value.cast_expr {source target : ValueType} {code : Code Local} {n m : Nat}
    (hne : source ≠ target) (hn : source.components? = some n) (hm : target.components? = some m) :
    (Value.expr source code).cast target =
      .ok (.expr target ((Conversion.between n m target).apply target code)) := by
  simp [cast, type, hne, hn, hm, literal?, Value.code]

/-- Where code of a vector type is converted to another numeric type, the components are selected
from all of the expression that the code is read as. The only exception is a cast outside of
parentheses: there they are selected from its operand. -/
theorem swizzle_applies_iff (code : Code Local) (e : Expr) (he : Expr.Reads code.source e)
    (dim : Dim) (hdim : dim ≠ .scalar) (target : ValueType) (htarget : target.components?.isSome)
    (hne : target ≠ .float dim) :
    ∃ code', (Value.expr (.float dim) code).cast target = .ok (.expr target code') ∧
      (∀ e', Expr.Reads code'.source e' ↔ e' = Expr.converted dim target
        (if code.isOperand then e.accessed else e.paren.member)) ∧
      ((∃ b : Expr, b.strip = e.strip ∧
        Expr.Reads code'.source (Expr.converted dim target b.member)) ↔
          ¬(code.isOperand = true ∧ e.isCast = true)) := by
  obtain ⟨m, hm⟩ := Option.isSome_iff_exists.mp htarget
  obtain ⟨hcount, hexpr⟩ := Conversion.expr_between hdim hm e (code.selected e)
  have hreads := Conversion.reads_apply _ target hcount he
  rw [hexpr] at hreads
  refine ⟨_, Value.cast_expr hne.symm rfl hm,
    fun e' => ⟨fun h => h.unique hreads, fun h => h ▸ hreads⟩, ?_, fun h => ?_⟩
  · rintro ⟨b, -, hb⟩ ⟨hoperand, hcast⟩
    obtain ⟨field, hfield⟩ := Expr.exists_of_converted (hb.unique hreads)
    -- a cast is no member access
    rw [Code.selected, if_pos hoperand] at hfield
    cases e with
    | cast => cases hfield
    | _ => cases hcast
  · by_cases hoperand : code.isOperand = true
    · have hcast : e.isCast = false := Bool.eq_false_of_not_eq_true fun hc => h ⟨hoperand, hc⟩
      rw [Code.selected, if_pos hoperand, Expr.accessed_of_not_isCast hcast] at hreads
      exact ⟨e, rfl, hreads⟩
    · rw [Code.selected, if_neg hoperand] at hreads
      exact ⟨e.paren, rfl, hreads⟩

/-- A sum that begins with a cast is put in parentheses. -/
theorem sum_swizzled :
    let sum : Code Local := Code.ofString "(float3)(x) + y"
    let e : Expr := .binary "+" (.cast "float3" (.paren (.name "x"))) (.name "y")
    Expr.Reads sum.source e ∧
      ∃ code' : Code Local, (Value.expr .float3 sum).cast .float2 = .ok (.expr .float2 code') ∧
        ∃ b : Expr, b.strip = e.strip ∧ Expr.Reads code'.source (.member b "xy") := by
  intro sum e
  have he : Expr.Reads sum.source e := by decide +kernel
  have hoperand : sum.isOperand = false := by decide +kernel
  obtain ⟨code', hcast, -, hiff⟩ :=
    swizzle_applies_iff sum e he .d3 (by decide) .float2 rfl (by decide)
  exact ⟨he, code', hcast, hiff.mpr fun h => by simp [hoperand] at h⟩

/-- A scalar spread over a vector, and the vector cut off: the components are selected from the
scalar, before it is spread. -/
theorem spread_scalar_swizzled :
    let spread : Code Local := Code.ofString "(float3)(ViewFar)"
    let e : Expr := .cast "float3" (.paren (.name "ViewFar"))
    (Value.expr .float1 (Code.ofString "ViewFar")).cast .float3 = .ok (.expr .float3 spread) ∧
      Expr.Reads spread.source e ∧
      ∃ code' : Code Local, (Value.expr .float3 spread).cast .float2 = .ok (.expr .float2 code') ∧
        code'.source = "(float3)(ViewFar).xy" ∧
        Expr.Reads code'.source (.cast "float3" (.member (.paren (.name "ViewFar")) "xy")) ∧
        ¬∃ b : Expr, b.strip = e.strip ∧ Expr.Reads code'.source (.member b "xy") := by
  intro spread e
  have hreads : Expr.Reads "(float3)(ViewFar).xy"
      (.cast "float3" (.member (.paren (.name "ViewFar")) "xy")) := by decide +kernel
  have hsource : (Code.ofString "(float3)(ViewFar).xy" : Code Local).source =
      "(float3)(ViewFar).xy" := by decide +kernel
  refine ⟨rfl, by decide +kernel, Code.ofString "(float3)(ViewFar).xy", rfl, hsource, ?_, ?_⟩
  · rw [hsource]
    exact hreads
  · rintro ⟨b, -, hb⟩
    rw [hsource] at hb
    cases hb.unique hreads

end ShaderGraph
