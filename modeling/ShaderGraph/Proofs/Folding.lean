import ShaderGraph.Proofs.Operands
import ShaderGraph.Proofs.Rounding
import ShaderGraph.Proofs.Swizzles

/-! Literals folded against the expressions that would convert them. Conversions are those of the
shading language: bits of integers are kept between the two integer types, while a folded literal
goes through single precision. That makes a difference just for integers that have too many
significant bits or lie outside of the range of the other type. -/

namespace ShaderGraph

namespace Literal

/-! ### Conversions of the shading language -/

/-- One scalar is the other one converted to its type. A float converts to an integer only if its
integral part is one. -/
def Converts : Literal → Literal → Prop
  | bool a, bool b => b = a
  | int i, bool b => b = decide (i ≠ 0)
  | uint u, bool b => b = decide (u ≠ 0)
  | float x, bool b => b = false ↔ x.isFinite = true ∧ x.value = 0
  | bool a, int i => i = if a then 1 else 0
  | int j, int i => i = j
  | uint u, int i => i.toInt ≡ u.toNat [ZMOD 2 ^ 32]
  | float x, int i => x.IsTruncated i.toInt
  | bool a, uint u => u = if a then 1 else 0
  | int i, uint u => u.toNat ≡ i.toInt [ZMOD 2 ^ 32]
  | uint v, uint u => u = v
  | float x, uint u => x.IsTruncated u.toNat
  | bool a, float y => y = if a then .one else .zero
  | int i, float y => y.IsNearest i.toInt ∧ y.negative = decide (i.toInt < 0)
  | uint u, float y => y.IsNearest u.toNat ∧ y.negative = false
  | float x, float y => y = x
  | _, _ => False

/-- A cast converts a scalar, or spreads it over a vector. -/
def CastsTo (v w : Literal) : Prop :=
  v.Converts w ∨ ∃ dim y, v.Converts (float y) ∧ w = splat dim y

/-- The components of a float literal. -/
def floats : Literal → List Binary32
  | float x => [x]
  | float2 x y => [x, y]
  | float3 x y z => [x, y, z]
  | float4 x y z w => [x, y, z, w]
  | _ => []

def ofFloats? : List Binary32 → Option Literal
  | [x] => some (float x)
  | [x, y] => some (float2 x y)
  | [x, y, z] => some (float3 x y z)
  | [x, y, z, w] => some (float4 x y z w)
  | _ => none

/-- The components with the given names. -/
def select? (v : Literal) (field : String) : Option Literal :=
  (field.toList.mapM fun c => (['x', 'y', 'z', 'w'].idxOf? c).bind (v.floats[·]?)).bind ofFloats?

end Literal

/-- The expression evaluates to values, several of them for a list of arguments, where a name stands
for a literal. -/
def Expr.Evaluates (name : String) (x : Literal) : Expr → List Literal → Prop
  | .name s, vs => s = name ∧ vs = [x]
  | .number s, vs => s = "0.0" ∧ vs = [.float .zero]
  | .paren e, vs => e.Evaluates name x vs
  | .member e field, vs => ∃ v w, e.Evaluates name x [v] ∧ v.select? field = some w ∧ vs = [w]
  | .cast type e, vs =>
    ∃ v w, e.Evaluates name x [v] ∧ v.CastsTo w ∧ ValueType.ofName? type = some w.type ∧ vs = [w]
  | .construct type args, vs =>
    ∃ us w, args.Evaluates name x us ∧ Literal.ofFloats? (us.flatMap Literal.floats) = some w ∧
      ValueType.ofName? type = some w.type ∧ vs = [w]
  | .binary op l r, vs =>
    ∃ us ws, l.Evaluates name x us ∧ r.Evaluates name x ws ∧ op = "," ∧ vs = us ++ ws
  | _, _ => False

namespace Literal

/-- The integral part of a float is a number of the type. -/
def Representable (x : Literal) : ValueType → Prop
  | .int => ∀ y ∈ x.floats.head?, ∃ i : Int32, y.IsTruncated i.toInt
  | .uint => ∀ y ∈ x.floats.head?, ∃ u : UInt32, y.IsTruncated u.toNat
  | _ => True

/-- The literal can go through single precision. The largest number of the signed type becomes the
next power of two, and is then cut off. -/
def Preserved : Literal → ValueType → Prop
  | int i, .uint => 0 ≤ i.toInt ∧ Binary32.Fits i.toInt.natAbs
  | uint u, .int => u.toNat = 2 ^ 31 - 1 ∨ u.toNat < 2 ^ 31 ∧ Binary32.Fits u.toNat
  | _, _ => True

end Literal

/-! ### Folded scalars -/

namespace Binary32

theorem isZero_iff {x : Binary32} : x.isZero = true ↔ x.isFinite = true ∧ x.value = 0 := by
  have hU := cast_unitsPerOne_pos
  have hzero : BinaryFormat.single.units 0 = 0 := by decide
  constructor
  · intro h
    have hcode : x.code = 0 := by simpa [isZero] using h
    refine ⟨by simp [isFinite, hcode]; decide, ?_⟩
    rw [value, units, hcode, hzero]
    simp
  · rintro ⟨-, h⟩
    have hunits : x.units = 0 := by
      rcases mul_eq_zero.mp h with h | h
      · exact absurd h (sign_ne_zero _)
      · simpa [hU.ne'] using h
    have hcode : x.code = 0 := by
      by_contra hne
      have hlt := (BinaryFormat.single.units_lt_units_succ 0).trans_le
        (BinaryFormat.single.units_mono (Nat.pos_of_ne_zero hne))
      unfold units at hunits
      omega
    simp [isZero, hcode]

theorem toInt32_of_isTruncated {x : Binary32} {i : Int32} (h : x.IsTruncated i.toInt) :
    x.toInt32 = i := by
  have hlt := i.toInt_lt
  have hge := i.le_toInt
  have hclamp : max (-2147483648) (min 2147483647 i.toInt) = i.toInt := by omega
  rw [toInt32, (isTruncated_iff.mp h).2, hclamp, Int32.ofInt_toInt]

theorem toUInt32_of_isTruncated {x : Binary32} {u : UInt32} (h : x.IsTruncated u.toNat) :
    x.toUInt32 = u := by
  have hlt := u.toNat_lt
  have hclamp : min 4294967295 u.toNat = u.toNat := by omega
  rw [toUInt32, (isTruncated_iff.mp h).2, Int.toNat_natCast, hclamp, UInt32.ofNat_toNat]

theorem natAbs_int32 (i : Int32) : i.toInt.natAbs < 2 ^ 32 := by
  have hlt := i.toInt_lt
  have hge := i.le_toInt
  omega

theorem natAbs_uint32 (u : UInt32) : (u.toNat : Int).natAbs < 2 ^ 32 := by
  have hlt := u.toNat_lt
  omega

/-- The integral part of a rounded integer. -/
theorem truncate_ofInt {n : Int} (hn : n.natAbs < 2 ^ 32) :
    (ofInt n).truncate = if n < 0 then -((ofInt n).wholePart : Int) else (ofInt n).wholePart := by
  obtain ⟨hnearest, hsign⟩ := isNearest_ofInt hn
  rw [truncate_of_isFinite hnearest.finite, hsign]
  simp

/-- A signed integer made unsigned by way of single precision. -/
theorem toUInt32_ofInt_eq_iff {i : Int32} {u : UInt32} (h : u.toNat ≡ i.toInt [ZMOD 2 ^ 32]) :
    (ofInt i.toInt).toUInt32 = u ↔ 0 ≤ i.toInt ∧ Fits i.toInt.natAbs := by
  have hn := natAbs_int32 i
  have hlt := i.toInt_lt
  have hge := i.le_toInt
  have hu := u.toNat_lt
  obtain ⟨hbound, -⟩ := ofInt_bounds hn
  rw [← wholePart_ofInt_eq_iff hn, toUInt32, truncate_ofInt hn, ← UInt32.toNat_inj,
    UInt32.toNat_ofNat_of_lt' (by simp only [UInt32.size]; omega)]
  unfold Int.ModEq at h
  split_ifs with hneg <;> omega

theorem wholePart_ofInt_maxInt : 2 ^ 31 ≤ (ofInt (2 ^ 31 - 1 : Nat)).wholePart := by decide

/-- An unsigned integer made signed by way of single precision. -/
theorem toInt32_ofInt_eq_iff {u : UInt32} {i : Int32} (h : i.toInt ≡ u.toNat [ZMOD 2 ^ 32]) :
    (ofInt u.toNat).toInt32 = i ↔
      u.toNat = 2 ^ 31 - 1 ∨ u.toNat < 2 ^ 31 ∧ Fits u.toNat := by
  have hn := natAbs_uint32 u
  have hlt := i.toInt_lt
  have hge := i.le_toInt
  have hfits := wholePart_ofInt_eq_iff hn
  rw [Int.natAbs_natCast] at hfits
  have hmax (h : u.toNat = 2 ^ 31 - 1) : 2 ^ 31 ≤ (ofInt u.toNat).wholePart := by
    rw [h]
    exact wholePart_ofInt_maxInt
  have hclamp : (max (-2147483648) (min 2147483647 (ofInt u.toNat).truncate)) =
      min 2147483647 ((ofInt u.toNat).wholePart : Int) := by
    rw [truncate_ofInt hn, if_neg (by omega)]
    omega
  rw [← hfits, toInt32, hclamp, ← Int32.toInt_inj, Int32.toInt_ofInt_of_le (by omega) (by omega)]
  unfold Int.ModEq at h
  omega

end Binary32

namespace Literal

/-- A scalar goes through single precision as the float that it converts to. -/
theorem spread_of_converts {a : Literal} {y : Binary32} (h : a.Converts (float y)) :
    a.spread = (y, y, y, y) := by
  cases a with
  | bool b =>
    obtain rfl : y = if b then .one else .zero := h
    rfl
  | int i =>
    obtain ⟨hnearest, hsign⟩ := Binary32.isNearest_ofInt (Binary32.natAbs_int32 i)
    have hy : y.IsNearest i.toInt ∧ y.negative = decide (i.toInt < 0) := h
    rw [← hnearest.unique hy.1 (hsign.trans hy.2.symm)]
    rfl
  | uint u =>
    obtain ⟨hnearest, hsign⟩ := Binary32.isNearest_ofInt (Binary32.natAbs_uint32 u)
    have hy : y.IsNearest u.toNat ∧ y.negative = false := h
    rw [Int.cast_natCast] at hnearest
    rw [← hnearest.unique hy.1 (by rw [hsign, hy.2]; simp)]
    rfl
  | float x =>
    obtain rfl : y = x := h
    rfl
  | float2 | float3 | float4 => exact h.elim

theorem isZero_ofInt {n : Int} (hn : n.natAbs < 2 ^ 32) :
    (!(Binary32.ofInt n).isZero) = decide (n ≠ 0) := by
  rw [Bool.eq_iff_iff]
  simp [(Binary32.ofInt_bounds hn).2, ← Bool.not_eq_true]

/-- Folding a scalar gives what it converts to if that is preserved. -/
theorem cast?_eq_iff {a y : Literal} (h : a.Converts y) (hne : a.type ≠ y.type) :
    a.cast? y.type = some y ↔ a.Preserved y.type := by
  cases y with
  | bool c =>
    refine iff_of_true ?_ (by cases a <;> trivial)
    cases a with
    | bool b => exact absurd rfl hne
    | int i =>
      obtain rfl : c = decide (i ≠ 0) := h
      have hzero := isZero_ofInt (Binary32.natAbs_int32 i)
      have hiff : i.toInt = 0 ↔ i = 0 := Int32.toInt_inj (x := i) (y := 0)
      simp [cast?, type, spread, spread.splat, hzero, hiff]
    | uint u =>
      obtain rfl : c = decide (u ≠ 0) := h
      have hzero := isZero_ofInt (Binary32.natAbs_uint32 u)
      have hiff : u.toNat = 0 ↔ u = 0 := UInt32.toNat_inj (a := u) (b := 0)
      simp [cast?, type, spread, spread.splat, hzero, hiff]
    | float x =>
      have hc : c = false ↔ x.isFinite = true ∧ x.value = 0 := h
      rw [← Binary32.isZero_iff] at hc
      have hsame : (!x.isZero) = c := by cases c <;> simp_all
      simp [cast?, type, spread, spread.splat, hsame]
    | float2 | float3 | float4 => exact h.elim
  | int i =>
    cases a with
    | bool b =>
      obtain rfl : i = if b then 1 else 0 := h
      exact iff_of_true (by cases b <;> decide) trivial
    | int i => exact absurd rfl hne
    | uint u =>
      simpa [cast?, type, spread, spread.splat, Preserved] using Binary32.toInt32_ofInt_eq_iff h
    | float x =>
      refine iff_of_true ?_ trivial
      rw [← Binary32.toInt32_of_isTruncated h]
      rfl
    | float2 | float3 | float4 => exact h.elim
  | uint u =>
    cases a with
    | bool b =>
      obtain rfl : u = if b then 1 else 0 := h
      exact iff_of_true (by cases b <;> decide) trivial
    | int i =>
      simpa [cast?, type, spread, spread.splat, Preserved] using Binary32.toUInt32_ofInt_eq_iff h
    | uint u => exact absurd rfl hne
    | float x =>
      refine iff_of_true ?_ trivial
      rw [← Binary32.toUInt32_of_isTruncated h]
      rfl
    | float2 | float3 | float4 => exact h.elim
  | float y =>
    refine iff_of_true ?_ (by cases a <;> trivial)
    simp [cast?, type, spread_of_converts h]
  | float2 | float3 | float4 => cases a <;> exact h.elim

theorem exists_converts_float {a : Literal} (ha : a.type.components? = some 1) :
    ∃ y, a.Converts (float y) := by
  cases a with
  | bool b => exact ⟨_, rfl⟩
  | int i => exact ⟨_, Binary32.isNearest_ofInt (Binary32.natAbs_int32 i)⟩
  | uint u =>
    obtain ⟨hnearest, hsign⟩ := Binary32.isNearest_ofInt (Binary32.natAbs_uint32 u)
    rw [Int.cast_natCast] at hnearest
    exact ⟨_, hnearest, hsign.trans (by simp)⟩
  | float x => exact ⟨x, rfl⟩
  | float2 | float3 | float4 => cases ha

theorem converts_of_castsTo {a w : Literal} (h : a.CastsTo w) (hw : ∀ dim, w.type ≠ .float dim) :
    a.Converts w := by
  rcases h with h | ⟨dim, y, -, rfl⟩
  · exact h
  · cases dim <;> exact absurd rfl (hw _)

theorem eq_int_of_type {w : Literal} (h : w.type = .int) : ∃ i, w = int i := by
  cases w with
  | int i => exact ⟨i, rfl⟩
  | _ => cases h

theorem eq_uint_of_type {w : Literal} (h : w.type = .uint) : ∃ u, w = uint u := by
  cases w with
  | uint u => exact ⟨u, rfl⟩
  | _ => cases h

theorem exists_converts_bool {a : Literal} (ha : a.type.components? = some 1) :
    ∃ b, a.Converts (bool b) := by
  cases a with
  | bool b => exact ⟨b, rfl⟩
  | int i => exact ⟨decide (i ≠ 0), rfl⟩
  | uint u => exact ⟨decide (u ≠ 0), rfl⟩
  | float x => exact ⟨!x.isZero, by simpa [Converts] using Binary32.isZero_iff⟩
  | float2 | float3 | float4 => cases ha

theorem exists_converts_int {a : Literal} (ha : a.type.components? = some 1) :
    (∃ i, a.Converts (int i)) ↔ a.Representable .int := by
  cases a with
  | bool b => exact iff_of_true ⟨_, rfl⟩ (by simp [Representable, floats])
  | int i => exact iff_of_true ⟨i, rfl⟩ (by simp [Representable, floats])
  | uint u =>
    refine iff_of_true ⟨.ofInt u.toNat, ?_⟩ (by simp [Representable, floats])
    simp only [Converts, Int32.toInt_ofInt]
    exact Int.bmod_emod
  | float x => simp [Converts, Representable, floats]
  | float2 | float3 | float4 => cases ha

theorem exists_converts_uint {a : Literal} (ha : a.type.components? = some 1) :
    (∃ u, a.Converts (uint u)) ↔ a.Representable .uint := by
  cases a with
  | bool b => exact iff_of_true ⟨_, rfl⟩ (by simp [Representable, floats])
  | int i =>
    refine iff_of_true ⟨.ofNat (i.toInt % 2 ^ 32).toNat, ?_⟩ (by simp [Representable, floats])
    simp only [Converts]
    rw [UInt32.toNat_ofNat_of_lt' (by simp only [UInt32.size]; omega)]
    unfold Int.ModEq
    omega
  | uint u => exact iff_of_true ⟨u, rfl⟩ (by simp [Representable, floats])
  | float x => simp [Converts, Representable, floats]
  | float2 | float3 | float4 => cases ha

/-- A scalar can be cast to every type, but for floats without an integral part of the type. -/
theorem exists_castsTo {a : Literal} (ha : a.type.components? = some 1) {target : ValueType}
    (htarget : target.components?.isSome) :
    (∃ w, a.CastsTo w ∧ w.type = target) ↔ a.Representable target := by
  cases target with
  | matrix | texture => cases htarget
  | bool =>
    obtain ⟨b, hb⟩ := exists_converts_bool ha
    exact iff_of_true ⟨bool b, .inl hb, rfl⟩ trivial
  | float dim =>
    obtain ⟨y, hy⟩ := exists_converts_float ha
    refine iff_of_true ⟨splat dim y, .inr ⟨dim, y, hy, rfl⟩, ?_⟩ trivial
    cases dim <;> rfl
  | int =>
    rw [← exists_converts_int ha]
    constructor
    · rintro ⟨w, h, hw⟩
      obtain ⟨i, rfl⟩ := eq_int_of_type hw
      exact ⟨i, converts_of_castsTo h (by simp [hw])⟩
    · rintro ⟨i, h⟩
      exact ⟨int i, .inl h, rfl⟩
  | uint =>
    rw [← exists_converts_uint ha]
    constructor
    · rintro ⟨w, h, hw⟩
      obtain ⟨u, rfl⟩ := eq_uint_of_type hw
      exact ⟨u, converts_of_castsTo h (by simp [hw])⟩
    · rintro ⟨u, h⟩
      exact ⟨uint u, .inl h, rfl⟩

/-- Folding a scalar gives what it is cast to if that is preserved. -/
theorem cast?_eq_iff_of_castsTo {a w : Literal} {target : ValueType} (h : a.CastsTo w)
    (hw : w.type = target) (hne : a.type ≠ target) :
    a.cast? target = some w ↔ a.Preserved target := by
  subst hw
  rcases h with h | ⟨dim, y, h, rfl⟩
  · exact cast?_eq_iff h hne
  · refine iff_of_true ?_ (by cases dim <;> cases a <;> trivial)
    cases dim <;> simp [splat, type, cast?, spread_of_converts h]

end Literal

/-! ### Evaluated conversions -/

theorem ValueType.ofName?_name (type : ValueType) : ofName? type.name = some type := by
  rcases type with _ | _ | _ | (_ | _ | _ | _) | _ | _ <;> decide

namespace Expr

variable {name : String} {x : Literal} {e : Expr} {y : Literal}

/-- Whatever stands for the literal itself. -/
def Denotes (name : String) (x : Literal) (e : Expr) : Prop :=
  ∀ vs, e.Evaluates name x vs ↔ vs = [x]

theorem evaluates_cast {a : Literal} (h : ∀ vs, e.Evaluates name x vs ↔ vs = [a])
    (target : ValueType) :
    (cast target.name (paren e)).Evaluates name x [y] ↔ a.CastsTo y ∧ y.type = target := by
  simp only [Evaluates, h, ValueType.ofName?_name]
  constructor
  · rintro ⟨v, w, hv, hw, htype, hy⟩
    obtain rfl := List.singleton_inj.mp hv
    obtain rfl := List.singleton_inj.mp hy
    exact ⟨hw, (Option.some.inj htype).symm⟩
  · rintro ⟨hy, htype⟩
    exact ⟨a, y, rfl, hy, by rw [htype], rfl⟩

theorem evaluates_member (h : Denotes name x e) {field : String} {w : Literal}
    (hw : x.select? field = some w) (vs : List Literal) :
    (member e field).Evaluates name x vs ↔ vs = [w] := by
  simp only [Evaluates, h _]
  constructor
  · rintro ⟨v, w', hv, hw', rfl⟩
    obtain rfl := List.singleton_inj.mp hv
    rw [Option.some.inj (hw.symm.trans hw')]
  · rintro rfl
    exact ⟨x, w, rfl, hw, rfl⟩

theorem evaluates_padded {us : List Literal} (h : ∀ vs, e.Evaluates name x vs ↔ vs = us) (n : Nat)
    (vs : List Literal) :
    (e.padded n).Evaluates name x vs ↔ vs = us ++ List.replicate n (.float .zero) := by
  induction n generalizing vs with
  | zero => simpa [padded] using h vs
  | succ n ih => simp [padded, Evaluates, ih, List.replicate_succ']

theorem evaluates_construct {us : List Literal} (h : ∀ vs, e.Evaluates name x vs ↔ vs = us)
    {w : Literal} (hw : Literal.ofFloats? (us.flatMap Literal.floats) = some w) :
    (construct w.type.name e).Evaluates name x [y] ↔ w = y := by
  simp only [Evaluates, h, ValueType.ofName?_name]
  constructor
  · rintro ⟨vs, w', rfl, hw', -, hy⟩
    obtain rfl := List.singleton_inj.mp hy
    exact Option.some.inj (hw.symm.trans hw')
  · rintro rfl
    exact ⟨us, w, rfl, hw, rfl, rfl⟩

/-- A vector is selected from and extended as it is folded. -/
theorem evaluates_converted (h : Denotes name x e) {dim d : Dim} (hdim : dim ≠ .scalar)
    (hx : x.type = .float dim) (hne : d ≠ dim) :
    (converted dim (.float d) e.member).Evaluates name x [y] ↔ x.cast? (.float d) = some y := by
  have hmember {field : String} {w : Literal} (hw : x.select? field = some w)
      (hc : x.cast? (.float d) = some w) :
      (member e field).Evaluates name x [y] ↔ x.cast? (.float d) = some y := by
    rw [evaluates_member h hw, hc]
    simp [eq_comm]
  have hextend {field : String} {n : Nat} {w : Literal} (hw : x.select? field = some x)
      (hf : Literal.ofFloats? (x.floats ++ List.replicate n .zero) = some w)
      (hc : x.cast? (.float d) = some w) :
      (construct w.type.name ((member e field).padded n)).Evaluates name x [y] ↔
        x.cast? (.float d) = some y := by
    have hpadded := evaluates_padded (evaluates_member h hw) n
    have hfloats : Literal.ofFloats? (([x] ++ List.replicate n (Literal.float .zero)).flatMap
        Literal.floats) = some w := by
      simpa [List.flatMap_replicate, Literal.floats] using hf
    rw [evaluates_construct hpadded hfloats, hc]
    simp
  cases x with
  | float2 a b =>
    obtain rfl : Dim.d2 = dim := ValueType.float.inj hx
    cases d with
    | scalar => exact hmember rfl rfl
    | d2 => exact absurd rfl hne
    | d3 => exact hextend (n := 1) rfl rfl rfl
    | d4 => exact hextend (n := 2) rfl rfl rfl
  | float3 a b c =>
    obtain rfl : Dim.d3 = dim := ValueType.float.inj hx
    cases d with
    | scalar => exact hmember rfl rfl
    | d2 => exact hmember rfl rfl
    | d3 => exact absurd rfl hne
    | d4 => exact hextend (n := 1) rfl rfl rfl
  | float4 a b c w =>
    obtain rfl : Dim.d4 = dim := ValueType.float.inj hx
    cases d with
    | scalar => exact hmember rfl rfl
    | d2 => exact hmember rfl rfl
    | d3 => exact hmember rfl rfl
    | d4 => exact absurd rfl hne
  | float a => exact absurd (ValueType.float.inj hx).symm hdim
  | bool | int | uint => cases hx

end Expr

/-- A literal is a scalar or a vector. -/
theorem Literal.type_cases (x : Literal) :
    x.type.components? = some 1 ∨ ∃ dim, x.type = .float dim ∧ dim ≠ .scalar := by
  cases x with
  | bool | int | uint | float => exact .inl rfl
  | float2 => exact .inr ⟨.d2, rfl, by decide⟩
  | float3 => exact .inr ⟨.d3, rfl, by decide⟩
  | float4 => exact .inr ⟨.d4, rfl, by decide⟩

theorem Value.cast_literal {x folded : Literal} {target : ValueType} (hne : x.type ≠ target)
    (htarget : target.components?.isSome) (h : x.cast? target = some folded) :
    (Value.literal x : Value Local).cast target = .ok (.literal folded) := by
  obtain ⟨m, hm⟩ := Option.isSome_iff_exists.mp htarget
  obtain ⟨n, hn⟩ : ∃ n, x.type.components? = some n := by
    rcases x.type_cases with hx | ⟨dim, hx, -⟩
    · exact ⟨1, hx⟩
    · exact ⟨dim.components, hx ▸ rfl⟩
  simp [cast, type, hne, hn, hm, literal?, h]

/-- What components are selected from stands for the literal, in parentheses or not. -/
theorem Code.selected_name (code : Code Local) (name : String) (x : Literal) :
    ∃ b, code.selected (.name name) = Expr.member b ∧ Expr.Denotes name x b := by
  have hname : Expr.Denotes name x (.name name) := fun vs => by simp [Expr.Evaluates]
  unfold selected
  split
  · exact ⟨.name name, rfl, hname⟩
  · exact ⟨.paren (.name name), rfl, hname⟩

namespace Literal

/-- The folded literal agrees with the values of an expression. -/
def Agrees (x : Literal) (target : ValueType) (folded : Literal) (name : String) (e : Expr) :
    Prop :=
  ((∃ y, e.Evaluates name x [y]) ↔ x.Representable target) ∧
    ∀ y, e.Evaluates name x [y] → (folded = y ↔ x.Preserved target)

variable {x folded : Literal} {target : ValueType} {name : String}

theorem agrees_self (x : Literal) (name : String) : x.Agrees x.type x name (.name name) := by
  have hevaluates (y : Literal) : (Expr.name name).Evaluates name x [y] ↔ y = x := by
    simp [Expr.Evaluates]
  have hrepresentable : x.Representable x.type := by
    cases x <;> simp [Representable, type, floats]
  have hpreserved : x.Preserved x.type := by cases x <;> trivial
  refine ⟨iff_of_true ⟨x, (hevaluates x).mpr rfl⟩ hrepresentable, fun y hy => ?_⟩
  exact iff_of_true ((hevaluates y).mp hy).symm hpreserved

/-- A cast of an expression that evaluates to a scalar, of the literal or the literal itself. -/
theorem agrees_cast {a : Literal} {e : Expr} (ha : a.type.components? = some 1)
    (htarget : target.components?.isSome) (hne : a.type ≠ target)
    (he : ∀ vs, e.Evaluates name x vs ↔ vs = [a]) (hf : a.cast? target = some folded)
    (hrepresentable : a.Representable target ↔ x.Representable target)
    (hpreserved : a.Preserved target ↔ x.Preserved target) :
    x.Agrees target folded name (.cast target.name (.paren e)) := by
  refine ⟨?_, fun y hy => ?_⟩
  · simp only [Expr.evaluates_cast he]
    exact (exists_castsTo ha htarget).trans hrepresentable
  · obtain ⟨hcast, htype⟩ := (Expr.evaluates_cast he target).mp hy
    rw [← hpreserved, ← cast?_eq_iff_of_castsTo hcast htype hne, hf, Option.some.injEq]

/-- The first component of a vector is folded in its place. -/
theorem exists_first {dim : Dim} (hx : x.type = .float dim)
    (htarget : target = .bool ∨ target = .int ∨ target = .uint) :
    ∃ a, x.select? "x" = some (float a) ∧ (float a).cast? target = x.cast? target ∧
      ((float a).Representable target ↔ x.Representable target) ∧
      ((float a).Preserved target ↔ x.Preserved target) := by
  cases x with
  | bool | int | uint => cases hx
  | float a | float2 a | float3 a | float4 a =>
    refine ⟨a, rfl, ?_⟩
    rcases htarget with rfl | rfl | rfl <;> exact ⟨rfl, Iff.rfl, Iff.rfl⟩

theorem agrees_vector {dim : Dim} {b : Expr} (hx : x.type = .float dim) (hdim : dim ≠ .scalar)
    (htarget : target.components?.isSome) (hne : x.type ≠ target) (hb : Expr.Denotes name x b)
    (hf : x.cast? target = some folded) :
    x.Agrees target folded name (Expr.converted dim target b.member) := by
  have hfirst (h : target = .bool ∨ target = .int ∨ target = .uint) :
      x.Agrees target folded name (.cast target.name (.paren (b.member "x"))) := by
    obtain ⟨a, hselect, hcast, hrepresentable, hpreserved⟩ := exists_first hx h
    have hfloat : (float a).type ≠ target := by rcases h with rfl | rfl | rfl <;> simp [type]
    exact agrees_cast rfl htarget hfloat (Expr.evaluates_member hb hselect) (hcast.trans hf)
      hrepresentable hpreserved
  cases target with
  | matrix | texture => cases htarget
  | bool => exact hfirst (.inl rfl)
  | int => exact hfirst (.inr (.inl rfl))
  | uint => exact hfirst (.inr (.inr rfl))
  | float d =>
    have hd : d ≠ dim := by
      rintro rfl
      exact hne hx
    have hiff (y : Literal) := Expr.evaluates_converted (y := y) hb hdim hx hd
    simp only [hf, Option.some.injEq] at hiff
    have hpreserved : x.Preserved (.float d) := by cases x <;> trivial
    refine ⟨iff_of_true ⟨folded, (hiff folded).mpr rfl⟩ trivial, fun y hy => ?_⟩
    exact iff_of_true ((hiff y).mp hy) hpreserved

end Literal

/-- Of every literal and numeric type: the expression that converts a name for the literal evaluates
to a value unless that is a float whose integral part is out of range, and the folded literal is
that value just if the literal can go through single precision. -/
theorem folding_agrees_iff (x : Literal) (target : ValueType) (htarget : target.components?.isSome)
    (name : String) (code : Code Local) (hcode : Expr.Reads code.source (.name name)) :
    ∃ folded v e, (Value.literal x : Value Local).cast target = .ok (.literal folded) ∧
      (Value.expr x.type code).cast target = .ok v ∧
      (∀ e', Expr.Reads v.code.source e' ↔ e' = e) ∧
      ((∃ y, e.Evaluates name x [y]) ↔ x.Representable target) ∧
      ∀ y, e.Evaluates name x [y] → (folded = y ↔ x.Preserved target) := by
  have hunique {v : Value Local} {e : Expr} (h : Expr.Reads v.code.source e) (e' : Expr) :
      Expr.Reads v.code.source e' ↔ e' = e := ⟨fun h' => h'.unique h, fun he => he ▸ h⟩
  by_cases hne : x.type = target
  · subst hne
    exact ⟨x, .expr x.type code, .name name, by simp [Value.cast, Value.type],
      by simp [Value.cast, Value.type], hunique hcode, x.agrees_self name⟩
  · obtain ⟨m, hm⟩ := Option.isSome_iff_exists.mp htarget
    obtain ⟨folded, hf⟩ := x.cast?_isSome hm
    have hfolded := Value.cast_literal hne htarget hf
    rcases x.type_cases with hx | ⟨dim, hx, hdim⟩
    · have hreads := Conversion.reads_apply .convert target one_pos hcode
      exact ⟨folded, _, _, hfolded, Value.cast_expr hne hx hm, hunique hreads,
        Literal.agrees_cast hx htarget hne (fun vs => by simp [Expr.Evaluates]) hf Iff.rfl Iff.rfl⟩
    · obtain ⟨b, hselected, hb⟩ := code.selected_name name x
      obtain ⟨hcount, hexpr⟩ :=
        Conversion.expr_between hdim hm (.name name) (code.selected (.name name))
      have hreads := Conversion.reads_apply _ target hcount hcode
      rw [hexpr, hselected] at hreads
      exact ⟨folded, _, _, hfolded, Value.cast_expr hne (congrArg _ hx) hm, hunique hreads,
        Literal.agrees_vector hx hdim htarget hne hb hf⟩

/-- The largest signed integer does not fit into single precision, but is folded all the same. -/
theorem largest_int_folded :
    let x : Literal := .uint 2147483647
    let code : Code Local := Code.ofString "x"
    Expr.Reads code.source (.name "x") ∧
      (Value.literal x : Value Local).cast .int = .ok (.literal (.int 2147483647)) ∧
      ∃ v e, (Value.expr .uint code).cast .int = .ok v ∧ Expr.Reads v.code.source e ∧
        e.Evaluates "x" x [.int 2147483647] := by
  intro x code
  have hcode : Expr.Reads code.source (.name "x") := by decide +kernel
  have hliteral : (Value.literal x : Value Local).cast .int = .ok (.literal (.int 2147483647)) := by
    rfl
  obtain ⟨folded, v, e, hfolded, hv, hreads, hdefined, hagrees⟩ :=
    folding_agrees_iff x .int rfl "x" code hcode
  obtain rfl : .int 2147483647 = folded :=
    Value.literal.inj (Except.ok.inj (hliteral.symm.trans hfolded))
  obtain ⟨y, hy⟩ := hdefined.mpr fun _ h => by cases h
  obtain rfl := (hagrees y hy).mpr (.inl rfl)
  exact ⟨hcode, hliteral, v, e, hv, (hreads e).mpr rfl, hy⟩

/-- A signed integer of 25 bits is folded to another number than it is converted to. -/
theorem odd_int_folded :
    let x : Literal := .int 16777217
    let e : Expr := .cast "uint" (.paren (.name "x"))
    (Value.literal x : Value Local).cast .uint = .ok (.literal (.uint 16777216)) ∧
      (Value.expr .int (Code.ofString "x" : Code Local)).cast .uint =
        .ok (.expr .uint (Code.ofString "(uint)(x)")) ∧
      Expr.Reads (Code.ofString "(uint)(x)" : Code Local).source e ∧
      e.Evaluates "x" x [.uint 16777217] ∧ ¬e.Evaluates "x" x [.uint 16777216] := by
  intro x e
  have hname (vs : List Literal) : (Expr.name "x").Evaluates "x" x vs ↔ vs = [x] := by
    simp [Expr.Evaluates]
  have hsame : (16777217 : UInt32).toNat ≡ (16777217 : Int32).toInt [ZMOD 2 ^ 32] := by decide
  have hother : ¬(16777216 : UInt32).toNat ≡ (16777217 : Int32).toInt [ZMOD 2 ^ 32] := by decide
  have hcast (y : Literal) : e.Evaluates "x" x [y] ↔ x.CastsTo y ∧ y.type = .uint :=
    Expr.evaluates_cast hname .uint
  refine ⟨rfl, rfl, by decide +kernel, (hcast _).mpr ⟨.inl hsame, rfl⟩, fun h => ?_⟩
  exact hother (Literal.converts_of_castsTo ((hcast _).mp h).1 (by simp [Literal.type]))

end ShaderGraph
