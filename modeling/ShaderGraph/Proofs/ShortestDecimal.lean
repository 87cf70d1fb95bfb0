import ShaderGraph.Proofs.JsonText

/-! Shortest decimals have no trailing zeros. A decimal that ends in zero lies on the next coarser
grid as well, and there it would have been found before. -/

namespace ShaderGraph

namespace BinaryFormat

variable (F : BinaryFormat)

theorem fractions_pos : 0 < F.fractions := Nat.pow_pos (by decide)

/-- A code with an exponent. -/
theorem units_exponent {e r : Nat} (hr : r < F.fractions) :
    F.units (F.fractions * (e + 1) + r) = (F.fractions + r) * 2 ^ e := by
  have hge : ¬F.fractions * (e + 1) + r < F.fractions := by
    rw [Nat.mul_succ]
    omega
  rw [units, if_neg hge, Nat.mul_add_mod, Nat.mod_eq_of_lt hr, Nat.mul_add_div F.fractions_pos,
    Nat.div_eq_of_lt hr]
  rfl

/-- A code without exponent, or with one. -/
theorem code_cases (code : Nat) :
    code < F.fractions ∨ ∃ e r, r < F.fractions ∧ code = F.fractions * (e + 1) + r := by
  by_cases h : code < F.fractions
  · exact .inl h
  · obtain ⟨e, he⟩ := Nat.exists_eq_add_of_le' (Nat.div_pos (Nat.le_of_not_lt h) F.fractions_pos)
    refine .inr ⟨e, code % F.fractions, Nat.mod_lt _ F.fractions_pos, ?_⟩
    rw [← he]
    exact (Nat.div_add_mod code F.fractions).symm

/-- Codes are ordered as their values. -/
theorem units_lt_units_succ (code : Nat) : F.units code < F.units (code + 1) := by
  obtain hcode | ⟨e, r, hr, rfl⟩ := F.code_cases code
  · have hvalue : F.units code = code := if_pos hcode
    by_cases hnext : code + 1 < F.fractions
    · have hsucc : F.units (code + 1) = code + 1 := if_pos hnext
      omega
    · have hsucc := F.units_exponent (e := 0) F.fractions_pos
      have heq : code + 1 = F.fractions * (0 + 1) + 0 := by omega
      rw [heq, hsucc, hvalue]
      omega
  · rw [F.units_exponent hr]
    by_cases hnext : r + 1 < F.fractions
    · rw [Nat.add_assoc, F.units_exponent hnext]
      exact Nat.mul_lt_mul_of_pos_right (by omega) (Nat.pow_pos (by decide))
    · have heq : F.fractions * (e + 1) + r + 1 = F.fractions * (e + 1 + 1) + 0 := by
        rw [Nat.mul_succ _ (e + 1)]
        omega
      rw [heq, F.units_exponent F.fractions_pos, Nat.pow_succ, ← Nat.mul_assoc,
        Nat.mul_right_comm]
      exact Nat.mul_lt_mul_of_pos_right (by omega) (Nat.pow_pos (by decide))

theorem units_mono {a b : Nat} (h : a ≤ b) : F.units a ≤ F.units b := by
  induction h with
  | refl => exact Nat.le_refl _
  | step _ ih => exact ih.trans (Nat.le_of_lt (F.units_lt_units_succ _))

end BinaryFormat

open BinaryFormat

namespace Shortest

/-! ### Intervals -/

namespace Interval

variable {i : Interval} {num num' den c : Nat}

theorem contains_iff : i.contains num den = true ↔
    if i.closed then i.low * den ≤ num ∧ num ≤ i.high * den
    else i.low * den < num ∧ num < i.high * den := by
  unfold contains
  split <;> simp

/-- Both parts of the fraction multiplied. -/
theorem contains_mul (hc : 0 < c) : i.contains (c * num) (c * den) = i.contains num den := by
  rw [Bool.eq_iff_iff, contains_iff, contains_iff]
  simp only [Nat.mul_left_comm _ c, Nat.mul_le_mul_left_iff hc, Nat.mul_lt_mul_left hc]

end Interval

variable {code num num' den : Nat}

/-- The number itself lies within its interval. -/
theorem low_lt_high (hcode : 0 < code) :
    (interval code).low < 2 * single.units code ∧ 2 * single.units code < (interval code).high := by
  have hbelow := single.units_lt_units_succ (code - 1)
  have habove := single.units_lt_units_succ code
  rw [Nat.sub_add_cancel hcode] at hbelow
  constructor <;> simp only [interval] <;> omega

/-- Whatever lies between a member of the interval and the number is in the interval. -/
theorem contains_of_between (hcode : 0 < code) (hden : 0 < den)
    (h : (interval code).contains num den = true)
    (hb : num ≤ num' ∧ num' ≤ 2 * single.units code * den ∨
      num' ≤ num ∧ 2 * single.units code * den ≤ num') :
    (interval code).contains num' den = true := by
  obtain ⟨hlow, hhigh⟩ := low_lt_high hcode
  have hlow := Nat.mul_lt_mul_of_pos_right hlow hden
  have hhigh := Nat.mul_lt_mul_of_pos_right hhigh hden
  rw [Interval.contains_iff] at h ⊢
  by_cases hclosed : (interval code).closed = true
  · rw [if_pos hclosed] at h ⊢
    omega
  · rw [if_neg hclosed] at h ⊢
    omega

/-! ### Grids -/

/-- One step of the grid, in half units, is `step k / scale k`. -/
def step (k : Int) : Nat := Nat.pow 10 k.toNat * (2 * single.unitsPerOne)

def scale (k : Int) : Nat := Nat.pow 10 (-k).toNat

theorem scale_pos (k : Int) : 0 < scale k := Nat.pow_pos (by decide)

theorem step_pos (k : Int) : 0 < step k :=
  Nat.mul_pos (Nat.pow_pos (by decide)) (Nat.mul_pos (by decide) (Nat.pow_pos (by decide)))

/-- The last point of the grid that is not beyond the number. -/
def below (code : Nat) (k : Int) : Nat := 2 * single.units code * scale k / step k

/-- The points on either side of the number are tried, and one that reads back is taken. -/
theorem onGrid_cases (tie : Tie) (code : Nat) (k : Int) :
    (∃ m, onGrid tie code k = some m ∧
      (interval code).contains (m * step k) (scale k) = true) ∨
    onGrid tie code k = none ∧
      (interval code).contains (below code k * step k) (scale k) = false ∧
      (interval code).contains ((below code k + 1) * step k) (scale k) = false := by
  unfold onGrid
  dsimp only
  split
  next hbelow habove => exact .inr ⟨rfl, hbelow, habove⟩
  next hbelow _ => exact .inl ⟨_, rfl, hbelow⟩
  next _ habove => exact .inl ⟨_, rfl, habove⟩
  next hbelow habove =>
    left
    split
    · exact ⟨_, rfl, hbelow⟩
    · split
      · exact ⟨_, rfl, habove⟩
      · split
        · exact ⟨_, rfl, habove⟩
        · split
          · exact ⟨_, rfl, hbelow⟩
          · exact ⟨_, rfl, habove⟩

theorem contains_of_onGrid {tie : Tie} {k : Int} {m : Nat} (h : onGrid tie code k = some m) :
    (interval code).contains (m * step k) (scale k) = true := by
  obtain ⟨m', hm', hcontains⟩ | ⟨hnone, -⟩ := onGrid_cases tie code k
  · obtain rfl : m' = m := Option.some.inj (hm'.symm.trans h)
    exact hcontains
  · simp [hnone] at h

/-- If any point of the grid reads back, one is found. -/
theorem onGrid_ne_none (tie : Tie) (hcode : 0 < code) {k : Int} {q : Nat}
    (h : (interval code).contains (q * step k) (scale k) = true) : onGrid tie code k ≠ none := by
  obtain ⟨m, hm, -⟩ | ⟨-, hbelow, habove⟩ := onGrid_cases tie code k
  · simp [hm]
  · exfalso
    have hlower : below code k * step k ≤ 2 * single.units code * scale k := Nat.div_mul_le_self _ _
    have hupper : 2 * single.units code * scale k ≤ (below code k + 1) * step k :=
      Nat.le_of_lt (Nat.lt_mul_of_div_lt (Nat.lt_succ_self _) (step_pos k))
    by_cases hq : q ≤ below code k
    · have hle : q * step k ≤ below code k * step k := Nat.mul_le_mul_right _ hq
      simp [contains_of_between hcode (scale_pos k) h (.inl ⟨hle, hlower⟩)] at hbelow
    · have hle : (below code k + 1) * step k ≤ q * step k :=
        Nat.mul_le_mul_right _ (Nat.lt_of_not_le hq)
      simp [contains_of_between hcode (scale_pos k) h (.inr ⟨hle, hupper⟩)] at habove

/-- A multiple of ten on a grid is a point of the next coarser one. -/
theorem contains_coarser {k : Int} {q : Nat}
    (h : (interval code).contains (10 * q * step k) (scale k) = true) :
    (interval code).contains (q * step (k + 1)) (scale (k + 1)) = true := by
  by_cases hk : 0 ≤ k
  · have hstep : q * step (k + 1) = 10 * q * step k := by
      have hnat : (k + 1).toNat = k.toNat + 1 := by omega
      simp only [step, hnat, Nat.pow_eq, Nat.pow_succ]
      ac_rfl
    have hscale : scale (k + 1) = scale k := by
      have hzero : (-(k + 1)).toNat = (-k).toNat := by omega
      rw [scale, scale, hzero]
    rwa [hstep, hscale]
  · have hstep : step (k + 1) = step k := by
      have hzero : (k + 1).toNat = k.toNat := by omega
      rw [step, step, hzero]
    have hscale : scale k = 10 * scale (k + 1) := by
      have hnat : (-k).toNat = (-(k + 1)).toNat + 1 := by omega
      simp only [scale, hnat, Nat.pow_eq, Nat.pow_succ, Nat.mul_comm]
    rwa [hscale, Nat.mul_assoc, Interval.contains_mul (by decide), ← hstep] at h

theorem ne_zero_of_contains (hcode : 0 < code) {k : Int} {m : Nat}
    (h : (interval code).contains (m * step k) (scale k) = true) : m ≠ 0 := by
  rintro rfl
  have hpos : 0 < single.units code := by
    have hlt := single.units_lt_units_succ (code - 1)
    rw [Nat.sub_add_cancel hcode] at hlt
    omega
  have hlow : 0 < (interval code).low * scale k :=
    Nat.mul_pos (Nat.add_pos_right _ hpos) (scale_pos k)
  rw [Interval.contains_iff, Nat.zero_mul] at h
  split at h <;> omega

/-- No finite number is ten times the coarsest step. -/
theorem lt_ten_of_contains (hcode : code < single.infinity) {m : Nat}
    (h : (interval code).contains (m * step 38) (scale 38) = true) : m < 10 := by
  have hhigh : (interval code).high * scale 38 ≤ 2 * single.units single.infinity := by
    have hself := single.units_mono (Nat.le_of_lt hcode)
    have hnext : single.units (code + 1) ≤ single.units single.infinity := single.units_mono hcode
    have hscale : scale 38 = 1 := rfl
    simp only [interval, hscale]
    omega
  have hlimit : 2 * single.units single.infinity < 10 * step 38 := by decide
  have hm : m * step 38 ≤ (interval code).high * scale 38 := by
    rw [Interval.contains_iff] at h
    split at h <;> omega
  exact Nat.lt_of_mul_lt_mul_right (Nat.lt_of_le_of_lt (hm.trans hhigh) hlimit)

/-- Before each grid but the first, the next coarser one is tried. -/
theorem coarser_mem {k : Int} {before after : List Int} (h : grids = before ++ k :: after)
    (hk : k ≠ 38) : k + 1 ∈ before := by
  have hget (i : Nat) (hi : i < 84) : grids[i]? = some (38 - (i : Int)) := by
    simp [grids, hi]
  have hlen : before.length < 84 := by
    have := congrArg List.length h
    simp [grids] at this
    omega
  have hself := hget before.length hlen
  rw [h, List.getElem?_append_right (Nat.le_refl _), Nat.sub_self, List.getElem?_cons_zero] at hself
  have hk' := Option.some.inj hself
  have hprevious := hget (before.length - 1) (by omega)
  rw [h, List.getElem?_append_left (by omega)] at hprevious
  have heq : 38 - ((before.length - 1 : Nat) : Int) = k + 1 := by omega
  rw [heq] at hprevious
  exact List.mem_of_getElem? hprevious

end Shortest

open Shortest in
/-- The shortest decimal of a number has no trailing zeros. -/
theorem Decimal.tidy_shortest (tie : Tie) {code : Nat} (hpos : 0 < code)
    (hcode : code < single.infinity) : (shortest tie code).Tidy := by
  unfold shortest
  cases hfind : grids.findSome? fun k => (onGrid tie code k).map (Decimal.mk · k) with
  | none => exact .inl rfl
  | some d =>
    obtain ⟨before, k, after, hgrids, hd, hbefore⟩ := List.findSome?_eq_some_iff.mp hfind
    obtain ⟨m, hm, rfl⟩ := Option.map_eq_some_iff.mp hd
    have hcontains := contains_of_onGrid hm
    refine .inr fun hmod => ?_
    obtain ⟨q, rfl⟩ : ∃ q, m = 10 * q := ⟨m / 10, by
      have hmod : m % 10 = 0 := hmod
      omega⟩
    have hne := ne_zero_of_contains hpos hcontains
    by_cases hk : k = 38
    · subst hk
      have hlt := lt_ten_of_contains hcode hcontains
      omega
    · have hnone := hbefore (k + 1) (coarser_mem hgrids hk)
      exact onGrid_ne_none tie hpos (contains_coarser hcontains) (Option.map_eq_none_iff.mp hnone)

end ShaderGraph
