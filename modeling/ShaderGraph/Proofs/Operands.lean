import ShaderGraph.Proofs.Quality

/-! Operands stay in one piece. The code of every value is a chain of names, numbers and bracketed
parts, so that no operator and no comma of it is exposed to the expression that it is pasted into.
Only the sign of a negative number stands outside of all brackets. -/

namespace ShaderGraph

open Text

/-! ### Literals -/

theorem Decimal.operand_positional (d : Decimal) : Operand d.positional.toList := by
  have hzeros (k : Nat) : ("".pushn '0' k).toList.all isOperandChar = true := by
    rw [Literal.toList_pushn]
    simp [isOperandChar]
  refine .word ?_ (by simp [positional])
  simp only [positional, Literal.toString_self, Nat.toString_eq_repr, String.toList_append,
    Nat.toList_repr, List.all_append, hzeros, all_toDigits]
  rfl

theorem Binary32.signed_literalText (x : Binary32) : Signed x.literalText.toList := by
  have hsign {t : String} (h : Operand t.toList) :
      Signed ((if x.negative then "-" else "" : String) ++ t).toList := by
    split
    · simpa using Signed.minus h
    · simpa using Signed.plain h
  unfold literalText
  generalize (if x.negative then "-" else "" : String) = sign at hsign ⊢
  split_ifs
  · exact .plain (by decide)
  · exact hsign (t := "inf") (by decide)
  · dsimp only
    rw [Literal.toString_self, String.append_assoc]
    refine hsign ?_
    rw [String.toList_append, Nat.toString_eq_repr, Nat.toList_repr]
    exact (operand_toDigits _).append (by decide)
  · exact hsign (Decimal.operand_positional _)

namespace Literal

/-- A scalar that is a number. -/
def isNumber : Literal → Bool
  | int _ | uint _ | float _ => true
  | _ => false

/-- The constructor of a vector, applied to its components. -/
theorem operand_vector {name : List Char} (hn : Operand name) (first : Binary32)
    (rest : List Binary32) :
    Operand (name ++ '(' :: (first.literalText.toList ++
      rest.flatMap fun x => ", ".toList ++ x.literalText.toList) ++ [')']) := by
  refine hn.call (first.signed_literalText.balanced.append ?_) .round
  induction rest with
  | nil => rfl
  | cons x rest ih =>
    rw [List.flatMap_cons]
    exact (Balanced.append (by decide) x.signed_literalText.balanced).append ih

/-- Only numbers have a sign. -/
theorem signed_text (l : Literal) :
    Signed l.text.toList ∧ (l.isNumber = false → Operand l.text.toList) := by
  cases l with
  | bool b => cases b <;> exact ⟨.plain (by decide), fun _ => by decide⟩
  | int i =>
    refine ⟨?_, by simp [isNumber]⟩
    cases h : i.toInt with
    | ofNat n => simpa [text, toString, Int.repr, h] using Signed.plain (operand_toDigits n)
    | negSucc n =>
      simpa [text, toString, Int.repr, h] using Signed.minus (operand_toDigits (n + 1))
  | uint u =>
    refine ⟨.plain ?_, by simp [isNumber]⟩
    simpa [text, toString_self] using (operand_toDigits u.toNat).append (b := ['u']) (by decide)
  | float x => exact ⟨x.signed_literalText, by simp [isNumber]⟩
  | float2 x y =>
    have hname : Operand "float2".toList := by decide
    have h := operand_vector hname x [y]
    have htext : Operand (float2 x y).text.toList := by simpa [text, toString_self] using h
    exact ⟨.plain htext, fun _ => htext⟩
  | float3 x y z =>
    have hname : Operand "float3".toList := by decide
    have h := operand_vector hname x [y, z]
    have htext : Operand (float3 x y z).text.toList := by simpa [text, toString_self] using h
    exact ⟨.plain htext, fun _ => htext⟩
  | float4 x y z w =>
    have hname : Operand "float4".toList := by decide
    have h := operand_vector hname x [y, z, w]
    have htext : Operand (float4 x y z w).text.toList := by simpa [text, toString_self] using h
    exact ⟨.plain htext, fun _ => htext⟩

/-- A literal can be folded into any numeric type. -/
theorem cast?_isSome (l : Literal) {target : ValueType} {n : Nat}
    (h : target.components? = some n) : ∃ l', l.cast? target = some l' := by
  rcases target with _ | _ | _ | (_ | _ | _ | _) | _ | _ <;> first | exact ⟨_, rfl⟩ | cases h

end Literal

/-! ### Values -/

namespace Value

/-- The text of the value. -/
def chars (v : Value Local) : List Char := v.code.source.toList

/-- A literal, or code that is an operand. -/
inductive Whole : Value Local → Prop
  | literal (l : Literal) : Whole (.literal l)
  | expr {type code} (h : Operand code.source.toList) : Whole (.expr type code)

namespace Whole

/-- Code that is fixed text. -/
theorem text {t : String} (h : Operand t.toList) (type : ValueType) : Whole (.expr type t) := by
  refine .expr ?_
  rwa [Code.toList_source_ofString]

theorem ref (type : ValueType) (r : Local) : Whole (.expr type [.ref r]) := by
  refine .expr ?_
  rw [Code.toList_source]
  simpa [Atom.chars, Local.name_toList] using
    Operand.append (a := "local".toList) (by decide) (operand_toDigits r)

theorem zero (type : ValueType) : Whole (.zero type) := by
  cases type with
  | matrix | texture => exact text (by decide) _
  | _ => exact .literal _

theorem signed {v : Value Local} (h : v.Whole) : Signed v.chars := by
  cases h with
  | literal l =>
    rw [chars, code, Code.toList_source_ofString]
    exact l.signed_text.1
  | expr h => exact .plain h

end Whole

end Value

/-! ### Conversions -/

section Conversion

variable {c : Code Local}

/-- Code that is not one operand is put in parentheses. -/
theorem Code.operand_operand (h : Operand c.source.toList) :
    Operand c.operand.source.toList := by
  unfold operand
  split
  · exact h
  · simpa [toList_source_append, toList_source_ofString] using Operand.enclose h.balanced .round

theorem Conversion.operand_swizzle (count : Nat) : Operand ('.' :: (swizzle count).toList) := by
  refine .word ?_ (by simp)
  rw [swizzle, String.toList_ofList, List.all_cons]
  have hall : ['x', 'y', 'z', 'w'].all isOperandChar = true := by decide
  exact List.all_eq_true.mpr fun x hx => List.all_eq_true.mp hall x (List.mem_of_mem_take hx)

theorem Conversion.operand_apply (conversion : Conversion) (target : ValueType)
    (h : Operand c.source.toList) : Operand (conversion.apply target c).source.toList := by
  have htype : Operand target.name.toList := by
    rcases target with _ | _ | _ | (_ | _ | _ | _) | _ | _ <;> decide
  have hcast {text : List Char} (ht : Balanced text) :
      Operand ('(' :: target.name.toList ++ [')'] ++ '(' :: text ++ [')']) :=
    (Operand.enclose htype.balanced .round).call ht .round
  have hoperand := Code.operand_operand h
  cases conversion with
  | convert =>
    simpa [apply, Code.toList_source_append, Code.toList_source_ofString, Literal.toString_self]
      using hcast h.balanced
  | first =>
    simpa [apply, Code.toList_source_append, Code.toList_source_ofString, Literal.toString_self]
      using hoperand.append (b := ".x".toList) (by decide)
  | convertFirst =>
    simpa [apply, Code.toList_source_append, Code.toList_source_ofString, Literal.toString_self]
      using hcast (hoperand.append (b := ".x".toList) (by decide)).balanced
  | leading count =>
    simpa [apply, Code.toList_source_append, Code.toList_source_ofString, Literal.toString_self]
      using hoperand.append (operand_swizzle count)
  | extend count zeros =>
    have hzeros : Balanced (String.join (List.replicate zeros ", 0.0")).toList := by
      rw [String.toList_join]
      induction zeros with
      | zero => rfl
      | succ n ih =>
        rw [List.replicate_succ, List.flatMap_cons]
        exact Balanced.append (by decide) ih
    have hfirst := (hoperand.append (operand_swizzle count)).balanced
    simpa [apply, Code.toList_source_append, Code.toList_source_ofString, Literal.toString_self]
      using htype.call (hfirst.append hzeros) .round

/-- A literal is folded, and code is wrapped. -/
theorem Value.Whole.cast {v w : Value Local} {target : ValueType} (h : v.Whole)
    (hw : v.cast target = .ok w) : w.Whole := by
  unfold Value.cast at hw
  split at hw
  · cases hw
    exact h
  · split at hw
    next hm =>
      split at hw
      next =>
        cases hw
        exact .literal _
      next hnone =>
        cases hw
        cases h with
        | literal l =>
          obtain ⟨l', hl⟩ := l.cast?_isSome hm
          simp [literal?, hl] at hnone
        | expr h => exact .expr (Conversion.operand_apply _ _ h)
    next => cases hw

end Conversion

/-- Literals, and code that is an operand, of any type. -/
def Quality.whole : Quality where
  value := Value.Whole
  type _ := True
  cause _ := True
  bool := trivial
  int := trivial
  float _ := trivial
  widest _ _ := trivial
  typeOf _ := trivial
  literal _ := .literal _
  zero _ := .zero _
  declared r _ := .ref _ r
  text h _ := .text h _
  cast h _ hw := h.cast hw
  mismatch _ _ _ := trivial
  other _ := trivial

/-! ### Pasting -/

/-- The code of the value is an operand. Only the literal of a negative number is one after its
sign. -/
inductive Value.Undivided : Value Local → Prop
  | operand {v} (h : Operand v.chars) : Undivided v
  | negative {l rest} (hl : l.isNumber = true) (ht : l.text.toList = '-' :: rest)
      (h : Operand rest) : Undivided (.literal l)

namespace Value

variable {v w : Value Local}

theorem chars_literal (l : Literal) : (Value.literal l).chars = l.text.toList :=
  Code.toList_source_ofString l.text

theorem Whole.undivided (h : v.Whole) : v.Undivided := by
  cases h with
  | literal l =>
    obtain ⟨hsigned, hother⟩ := l.signed_text
    cases hl : l.isNumber with
    | false => exact .operand (by simpa only [chars_literal] using hother hl)
    | true =>
      generalize ht : l.text.toList = text at hsigned
      cases hsigned with
      | plain h => exact .operand (by rwa [chars_literal, ht])
      | minus h => exact .negative hl ht h
  | expr h => exact .operand h

theorem Undivided.signed (h : v.Undivided) : Signed v.chars := by
  cases h with
  | operand h => exact .plain h
  | negative _ ht h =>
    rw [chars_literal, ht]
    exact .minus h

end Value

namespace Recipe.BinaryOp

/-- Functions take their operands as arguments. -/
def isFunction : BinaryOp → Bool
  | min | max | dot => true
  | _ => false

def symbol : BinaryOp → String
  | add => "+"
  | subtract => "-"
  | multiply => "*"
  | divide => "/"
  | min => "min"
  | max => "max"
  | dot => "dot"

/-- Outside of the operands' own brackets, the operation separates exactly its two operands. -/
def Separates (op : BinaryOp) (v w : Value Local) : Prop :=
  let text := (op.apply v.code w.code).source.toList
  if op.isFunction then
    ∃ arguments, text = op.symbol.toList ++ '(' :: arguments ++ [')'] ∧
      pieces arguments = [v.chars, w.chars]
  else pieces text = [v.chars, op.symbol.toList, w.chars]

variable {v w : Value Local}

theorem separates (op : BinaryOp) (hv : v.Undivided) (hw : w.Undivided) : op.Separates v w := by
  have hv := hv.signed.unbroken
  have hw := hw.signed.unbroken
  have hoperator : pieces (v.chars ++ ' ' :: (op.symbol.toList ++ ' ' :: w.chars)) =
      [v.chars, op.symbol.toList, w.chars] := by
    have hs : Unbroken op.symbol.toList := by
      cases op <;> exact ⟨by decide, by decide, by decide⟩
    rw [hv.pieces_cons rfl, hs.pieces_cons rfl, hw.pieces_self]
  have harguments : pieces (v.chars ++ ',' :: ' ' :: w.chars) = [v.chars, w.chars] := by
    rw [hv.pieces_cons rfl, pieces_separator rfl, hw.pieces_self]
  unfold Separates
  cases op with
  | add | subtract | multiply | divide =>
    simpa [isFunction, apply, symbol, Value.chars, Code.toList_source_append,
      Code.toList_source_ofString] using hoperator
  | min | max | dot =>
    refine ⟨v.chars ++ ',' :: ' ' :: w.chars, ?_, harguments⟩
    simp [apply, symbol, Value.chars, Code.toList_source_append, Code.toList_source_ofString]

end Recipe.BinaryOp

theorem Conversion.source_convert (target : ValueType) (v : Value Local) :
    (convert.apply target v.code).source.toList =
      '(' :: target.name.toList ++ [')', '('] ++ v.chars ++ [')'] := by
  simp [apply, Value.chars, Code.toList_source_append, Code.toList_source_ofString,
    Literal.toString_self]

/-! ### All values -/

/-- Operands stay in one piece. For all graphs, libraries, domains and configurations, and whatever
is asked for, the code of every value that is remembered, returned or written is a chain of names,
numbers and balanced brackets, with a sign only before the literal of a number. Pasted into an
operation or a cast without parentheses, such code stays one operand. -/
theorem operands_undivided (g : Graph) (domain : Domain) (resolver : Resolver) (config : Config) :
    let start := (Generator.new g domain resolver).withConfig config
    (∀ s, start.Reaches s → ∀ p ∈ s.memory, p.2.Undivided) ∧
    (∀ requests,
      (∀ request, ((start.after requests).answer request).1.Undivided) ∧
      (∃ l, Courses start.settings (start.allEvaluations requests) l) ∧
      (∀ l, Courses start.settings (start.allEvaluations requests) l → ∀ y ∈ l,
        y.value.Undivided) ∧
      ∀ m, (start.after requests).generate.1 = .ok m →
        ∀ o ∈ m.pixel.outputs ++ m.vertex.outputs, o.value.Undivided) ∧
    ∀ v w : Value Local, v.Undivided → w.Undivided →
      (∀ op : Recipe.BinaryOp, op.Separates v w) ∧
      ∀ target : ValueType, (Conversion.convert.apply target v.code).source.toList =
        '(' :: target.name.toList ++ [')', '('] ++ v.chars ++ [')'] ∧
          pieces v.chars = [v.chars] := by
  intro start
  have hidle : start.state.Idle start.settings start.material :=
    Generator.idle_new g domain resolver config
  have hrun := Quality.run hidle (.ofGraph .whole g) (fun _ _ _ _ => trivial)
    fun _ _ _ _ _ _ => trivial
  clear_value start
  obtain ⟨hreach, hrun⟩ := hrun
  refine ⟨fun s hs p hp => ?_, fun requests => ?_, fun v w hv hw =>
    ⟨fun op => op.separates hv hw, fun target =>
      ⟨Conversion.source_convert target v, hv.signed.unbroken.pieces_self⟩⟩⟩
  · exact Value.Whole.undivided ((hreach s hs).memory p hp)
  · obtain ⟨hanswer, hcourses, hvalues, houtputs⟩ := hrun requests
    refine ⟨fun request => ?_, hcourses, fun l hl y hy => ?_, fun m hm o ho => ?_⟩
    · exact Value.Whole.undivided (hanswer request)
    · exact Value.Whole.undivided (hvalues l hl y hy).2
    · exact Value.Whole.undivided (houtputs m hm o ho)

/-- A negative number is subtracted from the depth. -/
def lowered : Graph :=
  ⟨[(Node.ofKind 1 .materialOutput []).fed 1 ⟨1, 2⟩,
    ((Node.ofKind 2 .subtract []).fed 0 ⟨2, 0⟩).fed 1 ⟨3, 0⟩, .ofKind 3 .depth [],
    .ofKind 4 .float [.float (.ofInt (-2))]]⟩

/-- The sign of the number stays with it. -/
theorem lowered_undivided :
    let gen := (Generator.new lowered .surface ⟨[]⟩).withConfig {}
    (gen.answer (.output 3 0)).1.chars = "-2.0".toList ∧ (gen.answer (.output 3 0)).1.Undivided ∧
      ∃ m, gen.generate.1 = .ok m ∧
        m.pixel.code = "  float local0 = distance(ViewPos, input.WorldPosition.xyz);\n" ++
          "  float local1 = local0 - -2.0;\n" ∧
        ∀ o ∈ m.pixel.outputs ++ m.vertex.outputs, o.value.Undivided := by
  obtain ⟨hanswer, -, -, houtputs⟩ := (operands_undivided lowered .surface ⟨[]⟩ {}).2.1 []
  have htext : (((Generator.new lowered .surface ⟨[]⟩).withConfig {}).answer
      (.output 3 0)).1.chars = "-2.0".toList := by decide +kernel
  have hcode : (((Generator.new lowered .surface ⟨[]⟩).withConfig {}).generate.1.toOption.map
      (·.pixel.code)) = some ("  float local0 = distance(ViewPos, input.WorldPosition.xyz);\n" ++
        "  float local1 = local0 - -2.0;\n") := by decide +kernel
  dsimp only
  generalize (Generator.new lowered .surface ⟨[]⟩).withConfig {} = gen
    at hanswer houtputs htext hcode ⊢
  obtain ⟨m, hm, hpixel⟩ := Generator.generate_ok_of_map hcode
  exact ⟨htext, hanswer _, m, hm, hpixel, houtputs m hm⟩

end ShaderGraph
