import Mathlib.Data.Nat.Dist
import Mathlib.Tactic
import ShaderGraph.Proofs.ShortestDecimal

/-! Rounding to the nearest number of a binary format. No number is nearer to a quotient than the
one that it is rounded to, and if another one is as near, the code of the result is even. -/

namespace ShaderGraph

/-! ### Quotients -/

/-- Where the multiples of a divisor lie, seen from the last one that is not beyond. -/
theorem mul_cases (q k den : Nat) :
    k * den + den ≤ q * den ∨ k = q ∨ k = q + 1 ∨ q * den + 2 * den ≤ k * den := by
  rcases lt_trichotomy k q with h | h | h
  · left
    rw [← Nat.succ_mul]
    exact Nat.mul_le_mul_right den h
  · exact .inr (.inl h)
  · rcases Nat.eq_or_lt_of_le h with h | h
    · exact .inr (.inr (.inl h.symm))
    · right; right; right
      rw [← Nat.add_mul]
      exact Nat.mul_le_mul_right den h

/-- No multiple of the divisor is nearer than the rounded one, and of two that are as near the even
one is taken. -/
theorem dist_roundDiv {den : Nat} (hden : 0 < den) (num k : Nat) :
    Nat.dist (roundDiv num den * den) num ≤ Nat.dist (k * den) num ∧
      (k ≠ roundDiv num den →
        Nat.dist (k * den) num = Nat.dist (roundDiv num den * den) num →
          roundDiv num den % 2 = 0) := by
  have hnum := Nat.div_add_mod' num den
  have hmod := Nat.mod_lt num hden
  have hsucc : (num / den + 1) * den = num / den * den + den := Nat.succ_mul _ _
  have hk := mul_cases (num / den) k den
  unfold roundDiv Nat.dist
  dsimp only
  generalize num / den = q at *
  generalize num % den = r at *
  rcases hk with hk | rfl | rfl | hk <;> split_ifs <;> omega

theorem le_roundDiv {num den k : Nat} (hden : 0 < den) (h : k * den ≤ num) :
    k ≤ roundDiv num den := by
  have hk := (Nat.le_div_iff_mul_le hden).mpr h
  unfold roundDiv
  dsimp only
  split_ifs <;> omega

theorem roundDiv_le {num den k : Nat} (hden : 0 < den) (h : num < k * den) :
    roundDiv num den ≤ k := by
  have hk := (Nat.div_lt_iff_lt_mul hden).mpr h
  unfold roundDiv
  dsimp only
  split_ifs <;> omega

/-! ### Codes -/

namespace BinaryFormat

variable (F : BinaryFormat)

theorem unitsPerOne_pos : 0 < F.unitsPerOne := Nat.two_pow_pos F.scale

theorem fractions_mod_two (h : 0 < F.fractionBits) : F.fractions % 2 = 0 := by
  obtain ⟨k, hk⟩ := Nat.exists_eq_succ_of_ne_zero h.ne'
  have hpow : F.fractions = 2 ^ k * 2 := by
    rw [← Nat.pow_succ, ← hk]
    rfl
  omega

theorem units_shift {e r : Nat} (hr : r ≤ 2 * F.fractions) (he : e = 0 ∨ F.fractions ≤ r) :
    F.units (e * F.fractions + r) = r * 2 ^ e := by
  rcases Nat.lt_or_ge r F.fractions with hlt | hge
  · obtain rfl : e = 0 := by omega
    rw [Nat.zero_mul, Nat.zero_add, Nat.pow_zero, Nat.mul_one]
    exact if_pos hlt
  · rcases Nat.lt_or_ge r (2 * F.fractions) with hlt | hge'
    · have hcode : e * F.fractions + r = F.fractions * (e + 1) + (r - F.fractions) := by
        rw [Nat.mul_succ, Nat.mul_comm]
        omega
      rw [hcode, F.units_exponent (by omega), Nat.add_sub_cancel' hge]
    · have hcode : e * F.fractions + r = F.fractions * (e + 1 + 1) + 0 := by
        rw [Nat.mul_succ, Nat.mul_succ, Nat.mul_comm]
        omega
      rw [hcode, F.units_exponent F.fractions_pos, show r = 2 * F.fractions by omega]
      ring

/-- Seen from an exponent, a value is a multiple of its step or below all that have the exponent. -/
theorem units_cases (code e : Nat) :
    (∃ k, F.units code = k * 2 ^ e) ∨ 0 < e ∧ F.units code < F.fractions * 2 ^ e := by
  rcases Nat.eq_zero_or_pos e with rfl | he
  · exact .inl ⟨F.units code, (Nat.mul_one _).symm⟩
  obtain hcode | ⟨e', r, hr, rfl⟩ := F.code_cases code
  · refine .inr ⟨he, ?_⟩
    rw [show F.units code = code from if_pos hcode]
    exact hcode.trans_le (Nat.le_mul_of_pos_right _ (Nat.two_pow_pos e))
  · rw [F.units_exponent hr]
    rcases Nat.lt_or_ge e' e with hlt | hge
    · refine .inr ⟨he, ?_⟩
      calc (F.fractions + r) * 2 ^ e' < (2 * F.fractions) * 2 ^ e' :=
            Nat.mul_lt_mul_of_pos_right (by omega) (Nat.two_pow_pos e')
        _ = F.fractions * 2 ^ (e' + 1) := by ring
        _ ≤ F.fractions * 2 ^ e := Nat.mul_le_mul_left _ (Nat.pow_le_pow_right (by decide) hlt)
    · left
      refine ⟨(F.fractions + r) * 2 ^ (e' - e), ?_⟩
      rw [Nat.mul_assoc, ← Nat.pow_add, Nat.sub_add_cancel hge]

/-- The exponent in which a quotient is rounded. -/
def exponent (num den : Nat) : Nat := Nat.log2 (num * F.unitsPerOne / den) - F.fractionBits

/-- The fraction to which a quotient is rounded. -/
def significand (num den : Nat) : Nat :=
  roundDiv (num * F.unitsPerOne) (den * 2 ^ F.exponent num den)

/-- The code to which a quotient is rounded as long as that is not beyond infinity. -/
def rounded (num den : Nat) : Nat :=
  F.exponent num den * F.fractions + F.significand num den

variable {F} {num den : Nat}

theorem nearest_eq : F.nearest num den =
    min F.infinity (F.exponent num den * F.fractions + F.significand num den) := rfl

theorem nearest_of_lt (h : F.nearest num den < F.infinity) :
    F.nearest num den = F.exponent num den * F.fractions + F.significand num den := by
  rw [nearest_eq] at h ⊢
  omega

theorem fractions_mul (e : Nat) :
    F.fractions * (den * 2 ^ e) = 2 ^ (F.fractionBits + e) * den := by
  rw [show F.fractions = 2 ^ F.fractionBits from rfl]
  ring

/-- Where there is an exponent, the quotient has the leading bit for it. -/
theorem leading_le (hden : 0 < den) (he : 0 < F.exponent num den) :
    F.fractions * (den * 2 ^ F.exponent num den) ≤ num * F.unitsPerOne := by
  rw [fractions_mul, ← Nat.le_div_iff_mul_le hden]
  have hne : num * F.unitsPerOne / den ≠ 0 := by
    intro h
    simp [exponent, h] at he
  have hlog : F.fractionBits + F.exponent num den = Nat.log2 (num * F.unitsPerOne / den) := by
    unfold exponent at he ⊢
    omega
  rw [hlog]
  exact Nat.log2_self_le hne

theorem lt_leading (hden : 0 < den) :
    num * F.unitsPerOne < 2 * F.fractions * (den * 2 ^ F.exponent num den) := by
  rw [Nat.mul_assoc, fractions_mul, ← Nat.mul_assoc, ← Nat.pow_succ', ← Nat.div_lt_iff_lt_mul hden]
  have hlog : Nat.log2 (num * F.unitsPerOne / den) ≤ F.fractionBits + F.exponent num den := by
    unfold exponent
    omega
  exact Nat.lt_log2_self.trans_le (Nat.pow_le_pow_right (by decide) (Nat.succ_le_succ hlog))

theorem step_pos (hden : 0 < den) (e : Nat) : 0 < den * 2 ^ e :=
  Nat.mul_pos hden (Nat.two_pow_pos e)

theorem significand_le (hden : 0 < den) : F.significand num den ≤ 2 * F.fractions :=
  roundDiv_le (step_pos hden _) (lt_leading hden)

/-- The value of a rounded quotient. -/
theorem units_rounded (hden : 0 < den) :
    F.units (F.exponent num den * F.fractions + F.significand num den) =
      F.significand num den * 2 ^ F.exponent num den := by
  refine F.units_shift (significand_le hden) ?_
  rcases Nat.eq_zero_or_pos (F.exponent num den) with he | he
  · exact .inl he
  · exact .inr (le_roundDiv (step_pos hden _) (leading_le hden he))

/-- A quotient is rounded to the code that is nearest, and that is even if another one is as near. -/
theorem dist_rounded (hbits : 0 < F.fractionBits) (hden : 0 < den) (code : Nat) :
    Nat.dist (F.units (F.rounded num den) * den) (num * F.unitsPerOne) ≤
        Nat.dist (F.units code * den) (num * F.unitsPerOne) ∧
      (F.units code ≠ F.units (F.rounded num den) →
        Nat.dist (F.units code * den) (num * F.unitsPerOne) =
          Nat.dist (F.units (F.rounded num den) * den) (num * F.unitsPerOne) →
        F.rounded num den % 2 = 0) := by
  have hpos := step_pos hden (F.exponent num den)
  have hvalue : F.units (F.rounded num den) = F.significand num den * 2 ^ F.exponent num den :=
    units_rounded hden
  have hunits : F.units (F.rounded num den) * den =
      F.significand num den * (den * 2 ^ F.exponent num den) := by
    rw [hvalue]
    ring
  rw [hunits]
  rcases F.units_cases code (F.exponent num den) with ⟨k, hk⟩ | ⟨he, hlow⟩
  · have hmul : F.units code * den = k * (den * 2 ^ F.exponent num den) := by
      rw [hk]
      ring
    obtain ⟨hle, heven⟩ := dist_roundDiv hpos (num * F.unitsPerOne) k
    rw [hmul]
    refine ⟨hle, fun hne heq => ?_⟩
    have hsignificand : F.significand num den % 2 = 0 := by
      refine heven (fun h => hne ?_) heq
      rw [hvalue, hk, h]
      rfl
    rw [rounded, Nat.add_mod, hsignificand, Nat.mul_mod, F.fractions_mod_two hbits]
    simp
  · -- below the leading bit, where the multiples of the step end
    have hlead := leading_le hden he
    have hbelow : F.units code * den < F.fractions * (den * 2 ^ F.exponent num den) := by
      calc F.units code * den < F.fractions * 2 ^ F.exponent num den * den :=
            Nat.mul_lt_mul_of_pos_right hlow hden
        _ = F.fractions * (den * 2 ^ F.exponent num den) := by ring
    have hle : Nat.dist (F.significand num den * (den * 2 ^ F.exponent num den))
        (num * F.unitsPerOne) ≤ _ :=
      (dist_roundDiv hpos (num * F.unitsPerOne) F.fractions).1
    unfold Nat.dist at hle ⊢
    constructor <;> omega

/-- A code that is not infinity is rounded to where it is the nearest, and is even if another one is
as near. -/
theorem dist_nearest (hbits : 0 < F.fractionBits) (hden : 0 < den)
    (hfinite : F.nearest num den < F.infinity) (code : Nat) :
    Nat.dist (F.units (F.nearest num den) * den) (num * F.unitsPerOne) ≤
        Nat.dist (F.units code * den) (num * F.unitsPerOne) ∧
      (F.units code ≠ F.units (F.nearest num den) →
        Nat.dist (F.units code * den) (num * F.unitsPerOne) =
          Nat.dist (F.units (F.nearest num den) * den) (num * F.unitsPerOne) →
        F.nearest num den % 2 = 0) := by
  rw [show F.nearest num den = F.rounded num den from nearest_of_lt hfinite]
  exact dist_rounded hbits hden code

end BinaryFormat

/-! ### Single precision -/

namespace Binary32

def sign (negative : Bool) : ℚ := if negative then -1 else 1

theorem abs_sign (negative : Bool) : |sign negative| = 1 := by cases negative <;> simp [sign]

theorem sign_ne_zero (negative : Bool) : sign negative ≠ 0 := by
  cases negative <;> simp [sign]

/-- What a finite number stands for. -/
def value (x : Binary32) : ℚ :=
  sign x.negative * (x.units / BinaryFormat.single.unitsPerOne)

/-- The finite number is nearest to a rational, and even if another one is as near. -/
structure IsNearest (x : Binary32) (q : ℚ) : Prop where
  finite : x.isFinite = true
  le : ∀ y : Binary32, y.isFinite = true → |x.value - q| ≤ |y.value - q|
  even : ∀ y : Binary32, y.isFinite = true → y.value ≠ x.value →
    |y.value - q| = |x.value - q| → x.code % 2 = 0

theorem toNat_bits (x : Binary32) :
    x.bits.toNat = (if x.negative then signBit else 0) + x.code := by
  have hlt := x.bits.toNat_lt
  unfold negative code signBit
  split_ifs with h <;> simp only [decide_eq_true_eq] at h <;> omega

theorem ext_code {x y : Binary32} (hs : x.negative = y.negative) (hc : x.code = y.code) :
    x = y := by
  have hbits : x.bits = y.bits := UInt32.toNat_inj.mp (by rw [toNat_bits, toNat_bits, hs, hc])
  cases x
  cases y
  exact congrArg mk hbits

theorem code_ofCode (negative : Bool) {c : Nat} (hc : c < signBit) :
    (ofCode negative c).code = c ∧ (ofCode negative c).negative = negative := by
  unfold signBit at hc
  have hbits : (ofCode negative c).bits.toNat = (if negative then 0x80000000 else 0) + c := by
    refine UInt32.toNat_ofNat_of_lt' ?_
    cases negative <;> simp [UInt32.size, signBit] <;> omega
  unfold code Binary32.negative signBit
  rw [hbits]
  cases negative <;> simp <;> omega

theorem code_lt (x : Binary32) : x.code < signBit := Nat.mod_lt _ (by decide)

theorem infinity_lt : BinaryFormat.single.infinity < signBit := by decide

theorem isFinite_iff {x : Binary32} :
    x.isFinite = true ↔ x.code < BinaryFormat.single.infinity := by
  simp [isFinite]

theorem cast_unitsPerOne_pos : (0 : ℚ) < BinaryFormat.single.unitsPerOne := by
  exact_mod_cast BinaryFormat.single.unitsPerOne_pos

theorem abs_value (x : Binary32) :
    |x.value| = x.units / BinaryFormat.single.unitsPerOne := by
  have hnonneg : (0 : ℚ) ≤ x.units / BinaryFormat.single.unitsPerOne := by
    have := cast_unitsPerOne_pos
    positivity
  rw [value, abs_mul, abs_sign, one_mul, abs_of_nonneg hnonneg]

/-- The distance of two quotients over a common denominator. -/
theorem abs_div_sub_div {a b c d : Nat} (hb : 0 < b) (hd : 0 < d) :
    |(a / b : ℚ) - c / d| = Nat.dist (a * d) (c * b) / (b * d) := by
  have hb' : (0 : ℚ) < b := by exact_mod_cast hb
  have hd' : (0 : ℚ) < d := by exact_mod_cast hd
  have hdist : (Nat.dist (a * d) (c * b) : ℚ) = |(a * d : ℚ) - c * b| := by
    rcases le_total (a * d) (c * b) with h | h
    · have hq : (a * d : ℚ) ≤ c * b := by exact_mod_cast h
      rw [Nat.dist_eq_sub_of_le h, Nat.cast_sub h, abs_of_nonpos (by linarith)]
      push_cast
      ring
    · have hq : (c * b : ℚ) ≤ a * d := by exact_mod_cast h
      rw [Nat.dist_eq_sub_of_le_right h, Nat.cast_sub h, abs_of_nonneg (by linarith)]
      push_cast
      ring
  rw [hdist, div_sub_div _ _ hb'.ne' hd'.ne', abs_div, abs_of_pos (mul_pos hb' hd')]
  congr 2
  ring

theorem value_zero : zero.value = 0 := by
  rw [value, show zero.units = 0 from rfl]
  simp

theorem eq_zero_or_of_abs_neg_sub {a b : ℚ} (h : |-a - b| = |a - b|) : a = 0 ∨ b = 0 := by
  rcases abs_eq_abs.mp h with h | h
  · exact .inl (by linarith)
  · exact .inr (by linarith)

theorem abs_value_sub_le (num : Nat) {den : Nat} (hden : 0 < den) (y : Binary32) {s : ℚ}
    (hs : |s| = 1) :
    (Nat.dist (y.units * den) (num * BinaryFormat.single.unitsPerOne) : ℚ) /
      (BinaryFormat.single.unitsPerOne * den) ≤ |y.value - s * (num / den)| := by
  have hU := BinaryFormat.single.unitsPerOne_pos
  have hq : |s * (num / den : ℚ)| = num / den := by
    rw [abs_mul, hs, one_mul, abs_of_nonneg (by positivity)]
  have hle := abs_abs_sub_abs_le y.value (s * (num / den))
  rwa [hq, abs_value, abs_div_sub_div hU hden] at hle

theorem abs_value_sub {x : Binary32} {negative : Bool} (hx : x.negative = negative) (num : Nat)
    {den : Nat} (hden : 0 < den) :
    |x.value - sign negative * (num / den)| =
      Nat.dist (x.units * den) (num * BinaryFormat.single.unitsPerOne) /
        (BinaryFormat.single.unitsPerOne * den) := by
  have hU := BinaryFormat.single.unitsPerOne_pos
  rw [value, hx, ← mul_sub, abs_mul, abs_sign, one_mul, abs_div_sub_div hU hden]

/-- Numbers of the same magnitude are as near only to zero. -/
theorem value_eq_of_abs_eq {x y : Binary32} {q : ℚ} (hzero : |x.value - q| ≤ |zero.value - q|)
    (habs : |y.value| = |x.value|) (hdist : |y.value - q| = |x.value - q|) : y.value = x.value := by
  rcases abs_eq_abs.mp habs with h | h
  · exact h
  · rw [h] at hdist ⊢
    rcases eq_zero_or_of_abs_neg_sub hdist with h0 | h0
    · rw [h0, neg_zero]
    · rw [h0, sub_zero, sub_zero, value_zero, abs_zero] at hzero
      rw [abs_nonpos_iff.mp hzero, neg_zero]

/-- A quotient that does not become infinite is rounded to the nearest number. -/
theorem isNearest_ofRatio (negative : Bool) {num den : Nat} (hden : 0 < den)
    (hfinite : BinaryFormat.single.nearest num den < BinaryFormat.single.infinity) :
    (ofRatio negative num den).IsNearest (sign negative * (num / den)) := by
  have hU := BinaryFormat.single.unitsPerOne_pos
  have hscale : (0 : ℚ) < BinaryFormat.single.unitsPerOne * den := by
    exact_mod_cast Nat.mul_pos hU hden
  obtain ⟨hcode, hnegative⟩ := code_ofCode negative (hfinite.trans infinity_lt)
  have hunits : (ofRatio negative num den).units =
      BinaryFormat.single.units (BinaryFormat.single.nearest num den) :=
    congrArg BinaryFormat.single.units hcode
  have hdist := abs_value_sub (x := ofRatio negative num den) hnegative num hden
  have hnearest := fun code => BinaryFormat.dist_nearest (by decide) hden hfinite code
  rw [← hunits] at hnearest
  have hle (y : Binary32) : |(ofRatio negative num den).value - sign negative * (num / den)| ≤
      |y.value - sign negative * (num / den)| := by
    rw [hdist]
    refine le_trans ?_ (abs_value_sub_le num hden y (abs_sign negative))
    gcongr
    exact (hnearest y.code).1
  refine ⟨isFinite_iff.mpr (hcode.trans_lt hfinite), fun y _ => hle y, fun y _ hne heq => ?_⟩
  have hsame : Nat.dist (y.units * den) (num * BinaryFormat.single.unitsPerOne) =
      Nat.dist ((ofRatio negative num den).units * den)
        (num * BinaryFormat.single.unitsPerOne) := by
    have hge := abs_value_sub_le num hden y (abs_sign negative)
    rw [heq, hdist, div_le_div_iff_of_pos_right hscale] at hge
    exact le_antisymm (by exact_mod_cast hge) (hnearest y.code).1
  rw [show (ofRatio negative num den).code = _ from hcode]
  refine (hnearest y.code).2 (fun hu => hne ?_) hsame
  have habs : |y.value| = |(ofRatio negative num den).value| := by
    rw [abs_value, abs_value]
    exact congrArg (fun n : Nat => (n : ℚ) / _) hu
  exact value_eq_of_abs_eq (hle zero) habs heq

theorem units_lt {a b : Nat} (h : a < b) :
    (BinaryFormat.single.units a / BinaryFormat.single.unitsPerOne : ℚ) <
      BinaryFormat.single.units b / BinaryFormat.single.unitsPerOne := by
  have hunits := (BinaryFormat.single.units_lt_units_succ a).trans_le
    (BinaryFormat.single.units_mono h)
  have := cast_unitsPerOne_pos
  gcongr

/-- Between two numbers that are as near to a third one, a number is nearer. -/
theorem abs_sub_lt_of_between {s a b c q : ℚ} (hs : |s| = 1) (hab : a < b) (hbc : b < c)
    (h : |s * a - q| = |s * c - q|) : |s * b - q| < |s * a - q| := by
  have hmid : s * a + s * c = 2 * q := by
    rcases abs_eq_abs.mp h with h | h
    · have hne : s ≠ 0 := abs_pos.mp (hs ▸ one_pos)
      exact absurd (mul_left_cancel₀ hne (by linarith : s * a = s * c)) (hab.trans hbc).ne
    · linarith
  rcases (abs_eq zero_le_one).mp hs with rfl | rfl
  · rw [abs_of_neg (a := 1 * a - q) (by linarith), abs_lt]
    constructor <;> linarith
  · rw [abs_of_pos (a := -1 * a - q) (by linarith), abs_lt]
    constructor <;> linarith

theorem IsNearest.code_le {x y : Binary32} {q : ℚ} (hx : x.IsNearest q) (hy : y.IsNearest q)
    (hs : x.negative = y.negative) : x.code ≤ y.code := by
  by_contra hlt
  have hdist : |y.value - q| = |x.value - q| :=
    le_antisymm (hy.le x hx.finite) (hx.le y hy.finite)
  have hvalue (z : Binary32) (hz : z.negative = y.negative) : z.value = sign y.negative *
      (BinaryFormat.single.units z.code / BinaryFormat.single.unitsPerOne) := by
    rw [value, hz]
    rfl
  have hne : x.value ≠ y.value := by
    rw [hvalue x hs, hvalue y rfl]
    exact fun h => (units_lt (not_le.mp hlt)).ne' (mul_left_cancel₀ (sign_ne_zero _) h)
  have hxe := hx.even y hy.finite hne.symm hdist
  have hye := hy.even x hx.finite hne hdist.symm
  -- the code after that of `y` is odd, so it lies between the two
  obtain ⟨hcode, hnegative⟩ := code_ofCode y.negative (c := y.code + 1)
    (by have := code_lt x; omega)
  have hfinite : (ofCode y.negative (y.code + 1)).isFinite = true := by
    rw [isFinite_iff, hcode]
    have := isFinite_iff.mp hx.finite
    omega
  have hcloser := hy.le _ hfinite
  rw [hvalue _ hnegative, hvalue y rfl, hcode] at hcloser
  rw [hvalue y rfl, hvalue x hs] at hdist
  have hlt' := abs_sub_lt_of_between (abs_sign _) (units_lt (Nat.lt_succ_self y.code))
    (units_lt (by omega : y.code + 1 < x.code)) hdist
  exact absurd hcloser (not_le.mpr hlt')

/-- At most one number of a sign is nearest. -/
theorem IsNearest.unique {x y : Binary32} {q : ℚ} (hx : x.IsNearest q) (hy : y.IsNearest q)
    (hs : x.negative = y.negative) : x = y :=
  ext_code hs (le_antisymm (hx.code_le hy hs) (hy.code_le hx hs.symm))

/-! ### Integers -/

/-- A number of at most 24 significant bits. -/
def Fits (n : Nat) : Prop := ∃ m k, m < 2 ^ 24 ∧ n = m * 2 ^ k

theorem log2_units_lt {n k : Nat} (hn : n < 2 ^ k) (hk : 0 < k) :
    Nat.log2 (n * BinaryFormat.single.unitsPerOne / 1) < k + 149 := by
  rw [Nat.div_one]
  rcases Nat.eq_zero_or_pos n with rfl | hpos
  · rw [Nat.zero_mul]
    exact Nat.lt_add_right _ hk
  · have hne : n * BinaryFormat.single.unitsPerOne ≠ 0 :=
      (Nat.mul_pos hpos BinaryFormat.single.unitsPerOne_pos).ne'
    rw [Nat.log2_lt hne, Nat.pow_add]
    exact Nat.mul_lt_mul_of_pos_right hn (Nat.two_pow_pos 149)

/-- No 32-bit integer becomes infinite. -/
theorem nearest_lt_infinity {n : Nat} (hn : n < 2 ^ 32) :
    BinaryFormat.single.nearest n 1 < BinaryFormat.single.infinity := by
  have hlog := log2_units_lt hn (by decide)
  have hbits : BinaryFormat.single.fractionBits = 23 := rfl
  have hexponent : BinaryFormat.single.exponent n 1 ≤ 157 := by
    unfold BinaryFormat.exponent
    omega
  have hsignificand : BinaryFormat.single.significand n 1 ≤ 2 * BinaryFormat.single.fractions :=
    BinaryFormat.significand_le one_pos
  have hcode : BinaryFormat.single.exponent n 1 * BinaryFormat.single.fractions ≤
      157 * BinaryFormat.single.fractions := Nat.mul_le_mul_right _ hexponent
  have hinfinity : BinaryFormat.single.infinity = 255 * BinaryFormat.single.fractions := by decide
  have hpos := BinaryFormat.single.fractions_pos
  rw [BinaryFormat.nearest_eq]
  omega

theorem code_ofInt {n : Int} (hn : n.natAbs < 2 ^ 32) :
    (ofInt n).code = BinaryFormat.single.nearest n.natAbs 1 ∧
      (ofInt n).negative = decide (n < 0) :=
  code_ofCode _ ((nearest_lt_infinity hn).trans infinity_lt)

theorem isNearest_ofInt {n : Int} (hn : n.natAbs < 2 ^ 32) :
    (ofInt n).IsNearest n ∧ (ofInt n).negative = decide (n < 0) := by
  refine ⟨?_, (code_ofInt hn).2⟩
  have hnearest := isNearest_ofRatio (decide (n < 0)) one_pos (nearest_lt_infinity hn)
  have hq : sign (decide (n < 0)) * (n.natAbs / (1 : Nat) : ℚ) = n := by
    rcases lt_or_ge n 0 with h | h
    · simp [sign, h, Nat.cast_natAbs, abs_of_neg h]
    · simp [sign, not_lt.mpr h, Nat.cast_natAbs, abs_of_nonneg h]
  rwa [hq] at hnearest

/-- The magnitude of a rounded integer. -/
theorem units_ofInt {n : Int} (hn : n.natAbs < 2 ^ 32) :
    (ofInt n).units = BinaryFormat.single.significand n.natAbs 1 *
      2 ^ BinaryFormat.single.exponent n.natAbs 1 := by
  have hcode := BinaryFormat.nearest_of_lt (nearest_lt_infinity hn)
  rw [← BinaryFormat.units_rounded one_pos, ← hcode]
  exact congrArg BinaryFormat.single.units (code_ofInt hn).1

theorem roundDiv_mul {k den : Nat} (hden : 0 < den) : roundDiv (k * den) den = k := by
  simp [roundDiv, Nat.mul_div_cancel _ hden, hden]

theorem fits_of_le {m : Nat} (h : m ≤ 2 ^ 24) (k : Nat) : Fits (m * 2 ^ k) := by
  rcases Nat.lt_or_eq_of_le h with h | rfl
  · exact ⟨m, k, h, rfl⟩
  · exact ⟨2 ^ 23, k + 1, by decide, by ring⟩

/-- Just the integers of at most 24 significant bits are kept. -/
theorem wholePart_ofInt_eq_iff {n : Int} (hn : n.natAbs < 2 ^ 32) :
    (ofInt n).wholePart = n.natAbs ↔ Fits n.natAbs := by
  have hU := BinaryFormat.single.unitsPerOne_pos
  have hbits : BinaryFormat.single.fractionBits = 23 := rfl
  rw [wholePart, units_ofInt hn]
  constructor
  · intro h
    have hlt : n.natAbs * BinaryFormat.single.unitsPerOne < 2 * BinaryFormat.single.fractions *
        (1 * 2 ^ BinaryFormat.single.exponent n.natAbs 1) := BinaryFormat.lt_leading one_pos
    have hle : BinaryFormat.single.significand n.natAbs 1 ≤ 2 ^ 24 :=
      BinaryFormat.significand_le one_pos
    rcases Nat.le_total (BinaryFormat.single.exponent n.natAbs 1) 149 with he | he
    · have hsmall := calc
        n.natAbs * BinaryFormat.single.unitsPerOne
          < 2 ^ 24 * 2 ^ BinaryFormat.single.exponent n.natAbs 1 := by rwa [Nat.one_mul] at hlt
        _ ≤ 2 ^ 24 * BinaryFormat.single.unitsPerOne :=
            Nat.mul_le_mul_left _ (Nat.pow_le_pow_right (by decide) he)
      exact ⟨n.natAbs, 0, Nat.lt_of_mul_lt_mul_right hsmall, by simp⟩
    · obtain ⟨d, hd⟩ := Nat.exists_eq_add_of_le' he
      have hpow : 2 ^ (d + 149) = 2 ^ d * BinaryFormat.single.unitsPerOne := Nat.pow_add ..
      rw [hd, hpow, ← Nat.mul_assoc, Nat.mul_div_cancel _ hU] at h
      exact h ▸ fits_of_le hle d
  · rintro ⟨m, k, hm, hmk⟩
    have hexponent : BinaryFormat.single.exponent n.natAbs 1 ≤ k + 149 := by
      have hlt : n.natAbs < 2 ^ (24 + k) := by
        rw [hmk, Nat.pow_add]
        exact Nat.mul_lt_mul_of_pos_right hm (Nat.two_pow_pos k)
      have hlog := log2_units_lt hlt (by omega)
      unfold BinaryFormat.exponent
      omega
    obtain ⟨d, hd⟩ := Nat.exists_eq_add_of_le' hexponent
    have hunits : n.natAbs * BinaryFormat.single.unitsPerOne =
        m * 2 ^ d * 2 ^ BinaryFormat.single.exponent n.natAbs 1 := by
      rw [Nat.mul_assoc, ← Nat.pow_add, ← hd, hmk, Nat.mul_assoc, Nat.pow_add]
      rfl
    rw [BinaryFormat.significand, Nat.one_mul, hunits, roundDiv_mul (Nat.two_pow_pos _), ← hunits,
      Nat.mul_div_cancel _ hU]

/-- An integer is at most doubled, and only zero becomes zero. -/
theorem ofInt_bounds {n : Int} (hn : n.natAbs < 2 ^ 32) :
    (ofInt n).wholePart ≤ 2 * n.natAbs ∧ ((ofInt n).isZero = true ↔ n = 0) := by
  have hU := BinaryFormat.single.unitsPerOne_pos
  have hcode := (code_ofInt hn).1
  have hnearest (code : Nat) :=
    (BinaryFormat.dist_nearest (by decide) one_pos (nearest_lt_infinity hn) code).1
  have hzero : BinaryFormat.single.units 0 = 0 := by decide
  have hone : BinaryFormat.single.units one.code = BinaryFormat.single.unitsPerOne := by decide
  simp only [Nat.mul_one, ← hcode] at hnearest
  refine ⟨Nat.div_le_of_le_mul ?_, fun h => ?_, fun h => h ▸ by decide⟩
  · have hdist := hnearest 0
    rw [hzero] at hdist
    unfold Nat.dist at hdist
    rw [Nat.mul_left_comm, Nat.mul_comm _ n.natAbs]
    unfold units
    omega
  · -- one is nearer than zero to all that are not zero
    have hdist := hnearest one.code
    rw [show (ofInt n).code = 0 by simpa [isZero] using h, hzero, hone] at hdist
    by_contra hne
    have hmul : BinaryFormat.single.unitsPerOne ≤ n.natAbs * BinaryFormat.single.unitsPerOne :=
      Nat.le_mul_of_pos_left _ (Int.natAbs_pos.mpr hne)
    unfold Nat.dist at hdist
    omega

/-! ### Truncation -/

/-- The integer is the finite number without its fraction. -/
structure IsTruncated (x : Binary32) (n : Int) : Prop where
  finite : x.isFinite = true
  le : |(n : ℚ)| ≤ |x.value|
  lt : |x.value| < |(n : ℚ)| + 1
  sign : 0 ≤ n * x.value

theorem wholePart_eq_iff {x : Binary32} {n : Nat} :
    x.wholePart = n ↔ (n : ℚ) ≤ |x.value| ∧ |x.value| < n + 1 := by
  have hU := cast_unitsPerOne_pos
  have hpos := BinaryFormat.single.unitsPerOne_pos
  rw [abs_value, le_div_iff₀ hU, div_lt_iff₀ hU, wholePart, Nat.div_eq_iff hpos]
  norm_cast
  rw [Nat.succ_mul]
  omega

theorem value_nonpos {x : Binary32} (h : x.negative = true) : x.value ≤ 0 := by
  have hU := cast_unitsPerOne_pos
  rw [value, h, sign, if_pos rfl, neg_one_mul, neg_nonpos]
  positivity

theorem value_nonneg {x : Binary32} (h : x.negative = false) : 0 ≤ x.value := by
  have hU := cast_unitsPerOne_pos
  rw [value, h, sign, if_neg (by decide), one_mul]
  positivity

theorem isNaN_of_isFinite {x : Binary32} (h : x.isFinite = true) : x.isNaN = false := by
  simp only [isFinite, isNaN, decide_eq_true_eq, decide_eq_false_iff_not] at h ⊢
  omega

theorem truncate_of_isFinite {x : Binary32} (h : x.isFinite = true) :
    x.truncate = if x.negative then -(x.wholePart : Int) else x.wholePart := by
  simp [truncate, isNaN_of_isFinite h]

/-- An integral part that is not zero has the sign of the number. -/
theorem nonneg_of_abs_le {n : Int} {v : ℚ} (hsign : 0 ≤ n * v) (hle : |(n : ℚ)| ≤ |v|)
    (hv : 0 ≤ v) : 0 ≤ n := by
  rcases hv.eq_or_lt with rfl | hpos
  · rw [abs_zero] at hle
    exact_mod_cast (abs_nonpos_iff.mp hle).ge
  · exact_mod_cast nonneg_of_mul_nonneg_left hsign hpos

theorem isTruncated_iff {x : Binary32} {n : Int} :
    x.IsTruncated n ↔ x.isFinite = true ∧ x.truncate = n := by
  have habs : ((n.natAbs : ℕ) : ℚ) = |(n : ℚ)| := by
    rw [Nat.cast_natAbs, Int.cast_abs]
  constructor
  · rintro ⟨hfinite, hle, hlt, hsign⟩
    have hwhole : x.wholePart = n.natAbs := wholePart_eq_iff.mpr (by rw [habs]; exact ⟨hle, hlt⟩)
    refine ⟨hfinite, ?_⟩
    rw [truncate_of_isFinite hfinite, hwhole]
    split_ifs with hnegative
    · have hn : 0 ≤ -n := nonneg_of_abs_le (v := -x.value) (by simpa using hsign)
        (by simpa using hle) (neg_nonneg.mpr (value_nonpos hnegative))
      omega
    · have hn : 0 ≤ n := nonneg_of_abs_le hsign hle
        (value_nonneg (Bool.eq_false_of_not_eq_true hnegative))
      omega
  · rintro ⟨hfinite, rfl⟩
    rw [truncate_of_isFinite hfinite] at *
    obtain ⟨hle, hlt⟩ := wholePart_eq_iff.mp (rfl : x.wholePart = _)
    split_ifs at * with hnegative
    · refine ⟨hfinite, by simpa using hle, by simpa using hlt, ?_⟩
      push_cast
      exact mul_nonneg_of_nonpos_of_nonpos (by simp) (value_nonpos hnegative)
    · refine ⟨hfinite, by simpa using hle, by simpa using hlt, ?_⟩
      exact mul_nonneg (by simp) (value_nonneg (Bool.eq_false_of_not_eq_true hnegative))

end Binary32

end ShaderGraph
