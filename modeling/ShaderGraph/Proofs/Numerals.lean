import ShaderGraph.Proofs.Folding

/-! The text of a finite number stands for that number. It is a numeral with a point, and the decimal
of the numeral lies among those that are rounded to the number: it is the number itself if that is
integral, and else it has been looked for there. So no two literals have the same text. -/

namespace ShaderGraph

open BinaryFormat

/-! ### Numerals -/

/-- An optional minus sign, digits, a point, and digits again. -/
@[ext]
structure Numeral where
  negative : Bool
  whole : List Char
  fraction : List Char
  whole_ne_nil : whole ≠ []
  fraction_ne_nil : fraction ≠ []
  isDigit : ∀ c ∈ whole ++ fraction, c.isDigit = true

namespace Numeral

def chars (n : Numeral) : List Char :=
  (if n.negative then ['-'] else []) ++ (n.whole ++ '.' :: n.fraction)

def text (n : Numeral) : String := .ofList n.chars

/-- The digits on both sides of the point, read as one number. -/
def digits (n : Numeral) : Nat := Nat.ofDigitChars 10 (n.whole ++ n.fraction) 0

/-- The power of ten by which the point divides. -/
def scale (n : Numeral) : Nat := 10 ^ n.fraction.length

/-- The decimal that the numeral denotes. -/
def value (n : Numeral) : ℚ := Binary32.sign n.negative * (n.digits / n.scale)

/-- The numeral read as a number of single precision. -/
def toBinary32 (n : Numeral) : Binary32 := .ofRatio n.negative n.digits n.scale

theorem scale_pos (n : Numeral) : 0 < n.scale := Nat.pow_pos (by decide)

/-- Texts that stop at the first character of a kind agree up to it. -/
theorem append_inj_of_stop {p : Char → Bool} {a a' s s' : List Char}
    (ha : ∀ c ∈ a, p c = true) (ha' : ∀ c ∈ a', p c = true)
    (hs : ∀ c ∈ s.head?, p c = false) (hs' : ∀ c ∈ s'.head?, p c = false)
    (h : a ++ s = a' ++ s') : a = a' ∧ s = s' := by
  have heq : a = a' := by
    have hwhile := congrArg (List.takeWhile p) h
    rwa [List.takeWhile_append_of_pos ha, List.takeWhile_append_of_pos ha',
      Json.takeWhile_eq_nil hs, Json.takeWhile_eq_nil hs', List.append_nil, List.append_nil] at hwhile
  subst heq
  exact ⟨rfl, List.append_cancel_left h⟩

/-- A minus sign is told from what it stands before. -/
theorem sign_inj {a b : Bool} {s t : List Char} (hs : s.head? ≠ some '-') (ht : t.head? ≠ some '-')
    (h : (if a then ['-'] else []) ++ s = (if b then ['-'] else []) ++ t) : a = b ∧ s = t := by
  cases a <;> cases b
  · exact ⟨rfl, h⟩
  · exact absurd (congrArg List.head? h) hs
  · exact absurd (congrArg List.head? h).symm ht
  · exact ⟨rfl, List.append_cancel_left h⟩

theorem head?_ne_minus {ds : List Char} (hne : ds ≠ []) (hd : ∀ c ∈ ds, c.isDigit = true)
    (s : List Char) : (ds ++ s).head? ≠ some '-' := by
  obtain ⟨c, cs, rfl⟩ := List.exists_cons_of_ne_nil hne
  have hdigit := hd c List.mem_cons_self
  rintro ⟨⟩
  cases hdigit

theorem isDigit_whole (n : Numeral) : ∀ c ∈ n.whole, c.isDigit = true :=
  fun c hc => n.isDigit c (List.mem_append_left _ hc)

/-- A text is that of one numeral at most. -/
theorem chars_injective {m n : Numeral} (h : m.chars = n.chars) : m = n := by
  obtain ⟨hsign, hrest⟩ := sign_inj (head?_ne_minus m.whole_ne_nil m.isDigit_whole _)
    (head?_ne_minus n.whole_ne_nil n.isDigit_whole _) h
  obtain ⟨hwhole, hfraction⟩ :=
    append_inj_of_stop m.isDigit_whole n.isDigit_whole (by simp) (by simp) hrest
  exact Numeral.ext hsign hwhole (List.cons.inj hfraction).2

theorem text_injective {m n : Numeral} (h : m.text = n.text) : m = n :=
  chars_injective (String.ofList_injective h)

end Numeral

/-! ### Rounding intervals -/

namespace Shortest

variable {code num den : Nat}

theorem contains_of_lt {i : Interval} (hlow : i.low * den < num) (hhigh : num < i.high * den) :
    i.contains num den = true := by
  rw [Interval.contains_iff]
  split
  · exact ⟨hlow.le, hhigh.le⟩
  · exact ⟨hlow, hhigh⟩

/-- The number itself is in its interval. -/
theorem contains_self (code : Nat) (hden : 0 < den) :
    (interval code).contains (2 * single.units code * den) den = true := by
  rcases Nat.eq_zero_or_pos code with rfl | hcode
  · rw [Interval.contains_iff]
    exact ⟨Nat.mul_le_mul_right _ (by decide), Nat.mul_le_mul_right _ (by decide)⟩
  · obtain ⟨hlow, hhigh⟩ := low_lt_high hcode
    exact contains_of_lt (Nat.mul_lt_mul_of_pos_right hlow hden)
      (Nat.mul_lt_mul_of_pos_right hhigh hden)

theorem strictMono_units : StrictMono single.units :=
  strictMono_nat_of_lt_succ single.units_lt_units_succ

/-- Ends of an interval are halfway to the neighbours, and belong to even codes only. -/
theorem bounds_of_contains (h : (interval code).contains (2 * num) den = true) :
    single.units (code - 1) * den + single.units code * den ≤ 2 * num ∧
    2 * num ≤ single.units code * den + single.units (code + 1) * den ∧
    (code % 2 = 1 → single.units (code - 1) * den + single.units code * den < 2 * num ∧
      2 * num < single.units code * den + single.units (code + 1) * den) := by
  rw [Interval.contains_iff] at h
  simp only [interval, beq_iff_eq, Nat.add_mul] at h
  split at h <;> omega

/-- All that lies in the interval of a code is rounded to it. -/
theorem rounded_eq_of_contains (hden : 0 < den)
    (h : (interval code).contains (2 * (num * single.unitsPerOne)) den = true) :
    single.rounded num den = code := by
  obtain ⟨hle, heven⟩ := @dist_rounded single num den (by decide) hden code
  obtain ⟨hlow, hhigh, hodd⟩ := bounds_of_contains h
  generalize single.rounded num den = r at *
  have hmono {a b : Nat} (hab : a < b) : single.units a * den < single.units b * den :=
    Nat.mul_lt_mul_of_pos_right (strictMono_units hab) hden
  unfold Nat.dist at hle heven
  rcases Nat.lt_trichotomy r code with hlt | heq | hgt
  · -- only the code before is as near, and one of the two is odd
    have hne := (strictMono_units hlt).ne'
    have hbefore := hmono (Nat.sub_one_lt_of_lt hlt)
    rcases Nat.eq_or_lt_of_le (Nat.le_sub_one_of_lt hlt) with rfl | hr
    · omega
    · have := hmono hr
      omega
  · exact heq
  · have hne := (strictMono_units hgt).ne
    have hafter := hmono (show code < code + 1 by omega)
    rcases Nat.eq_or_lt_of_le (show code + 1 ≤ r from hgt) with rfl | hr
    · omega
    · have := hmono hr
      omega

theorem nearest_eq_of_contains (hden : 0 < den) (hcode : code < single.infinity)
    (h : (interval code).contains (2 * (num * single.unitsPerOne)) den = true) :
    single.nearest num den = code := by
  rw [nearest_eq, show _ + _ = single.rounded num den from rfl, rounded_eq_of_contains hden h]
  exact Nat.min_eq_right hcode.le

/-- Finite numbers end half a step beyond the largest one. -/
theorem lt_of_contains (hden : 0 < den) (hcode : code < single.infinity)
    (h : (interval code).contains (2 * (num * single.unitsPerOne)) den = true) :
    num < (2 ^ 128 - 2 ^ 103) * den := by
  obtain ⟨-, hhigh, hodd⟩ := bounds_of_contains h
  have hlimit : single.units (single.infinity - 1) + single.units single.infinity =
      2 * ((2 ^ 128 - 2 ^ 103) * single.unitsPerOne) := by decide
  have hlast : (single.infinity - 1) % 2 = 1 := by decide
  have hlt : 2 * (num * single.unitsPerOne) <
      (single.units (single.infinity - 1) + single.units single.infinity) * den := by
    rw [Nat.add_mul]
    rcases Nat.eq_or_lt_of_le (Nat.le_sub_one_of_lt hcode) with rfl | hbelow
    · rw [Nat.sub_add_cancel (by decide)] at hodd
      exact (hodd hlast).2
    · have hself := Nat.mul_lt_mul_of_pos_right (strictMono_units hbelow) hden
      have hnext := Nat.mul_lt_mul_of_pos_right
        (strictMono_units (show code + 1 < single.infinity by omega)) hden
      omega
  rw [hlimit, Nat.mul_assoc, Nat.mul_right_comm] at hlt
  exact Nat.lt_of_mul_lt_mul_right (Nat.lt_of_mul_lt_mul_left hlt)

/-- The finest grid has a point in every interval. -/
theorem exists_contains (hcode : 0 < code) :
    ∃ q, (interval code).contains (q * step (-45)) (scale (-45)) = true := by
  obtain ⟨hlow, hhigh⟩ := low_lt_high hcode
  have hlow : ((interval code).low + 1) * scale (-45) ≤ 2 * single.units code * scale (-45) :=
    Nat.mul_le_mul_right _ hlow
  have hhigh : (2 * single.units code + 1) * scale (-45) ≤ (interval code).high * scale (-45) :=
    Nat.mul_le_mul_right _ hhigh
  -- the interval reaches a half unit to either side, and a step is less than one unit
  have hstep : step (-45) < 2 * scale (-45) := by decide
  have hdiv := Nat.div_add_mod' (2 * single.units code * scale (-45)) (step (-45))
  have hmod := Nat.mod_lt (2 * single.units code * scale (-45)) (step_pos (-45))
  rw [Nat.succ_mul] at hlow hhigh
  rcases Nat.lt_or_ge (2 * single.units code * scale (-45) % step (-45)) (scale (-45)) with hr | hr
  · exact ⟨2 * single.units code * scale (-45) / step (-45),
      contains_of_lt (by omega) (by omega)⟩
  · refine ⟨2 * single.units code * scale (-45) / step (-45) + 1, ?_⟩
    apply contains_of_lt <;> rw [Nat.succ_mul] <;> omega

/-- The shortest decimal lies in the interval. -/
theorem contains_shortest (tie : Tie) (hcode : 0 < code) :
    (interval code).contains
      ((Decimal.shortest tie code).digits * step (Decimal.shortest tie code).exponent)
      (scale (Decimal.shortest tie code).exponent) = true := by
  unfold Decimal.shortest
  cases hfind : grids.findSome? fun k => (onGrid tie code k).map (Decimal.mk · k) with
  | none =>
    obtain ⟨q, hq⟩ := exists_contains hcode
    have hnone := List.findSome?_eq_none_iff.mp hfind (-45) (by decide)
    exact absurd (Option.map_eq_none_iff.mp hnone) (onGrid_ne_none tie hcode hq)
  | some d =>
    obtain ⟨k, -, hk⟩ := List.exists_of_findSome?_eq_some hfind
    obtain ⟨m, hm, rfl⟩ := Option.map_eq_some_iff.mp hk
    exact contains_of_onGrid hm

end Shortest

/-! ### The text of a number -/

/-- A number before the point, and digits after it. -/
def Numeral.ofDigits (negative : Bool) (n : Nat) {ds : List Char} (hne : ds ≠ [])
    (hd : ∀ c ∈ ds, c.isDigit = true) : Numeral where
  negative := negative
  whole := Nat.toDigits 10 n
  fraction := ds
  whole_ne_nil := Nat.toDigits_ne_nil
  fraction_ne_nil := hne
  isDigit c hc := (List.mem_append.mp hc).elim (Json.all_isDigit_toDigits n c) (hd c)

theorem Numeral.digits_ofDigits (negative : Bool) (n : Nat) {ds : List Char} (hne : ds ≠ [])
    (hd : ∀ c ∈ ds, c.isDigit = true) :
    (ofDigits negative n hne hd).digits = n * 10 ^ ds.length + Json.digitsValue ds := by
  rw [digits, ← Json.digitsValue_eq, Json.digitsValue_append]
  exact congrArg (· * _ + _) (Json.digitsValue_toDigits n)

theorem Numeral.toList_text_ofDigits (negative : Bool) (n : Nat) {ds : List Char} (hne : ds ≠ [])
    (hd : ∀ c ∈ ds, c.isDigit = true) :
    (ofDigits negative n hne hd).text.toList =
      (if negative then ['-'] else []) ++ (Nat.toDigits 10 n ++ '.' :: ds) :=
  String.toList_ofList

/-- A decimal in its interval, with its point in place. -/
theorem Shortest.contains_shift {code : Nat} {d : Decimal} {k l : Nat}
    (hkl : -(l : Int) = d.exponent - k)
    (h : (interval code).contains (d.digits * step d.exponent) (scale d.exponent) = true) :
    (interval code).contains (2 * (d.digits * 10 ^ k * single.unitsPerOne)) (10 ^ l) = true := by
  obtain ⟨c, hk, hl⟩ : ∃ c, k = c + d.exponent.toNat ∧ l = c + (-d.exponent).toNat :=
    ⟨k - d.exponent.toNat, by omega, by omega⟩
  have hnum : 2 * (d.digits * 10 ^ k * single.unitsPerOne) =
      10 ^ c * (d.digits * step d.exponent) := by
    rw [step, Nat.pow_eq, hk, Nat.pow_add]
    ring
  have hden : 10 ^ l = 10 ^ c * scale d.exponent := by
    rw [scale, Nat.pow_eq, hl, Nat.pow_add]
  rw [hnum, hden, Interval.contains_mul (Nat.pow_pos (by decide))]
  exact h

namespace Binary32

variable {x y : Binary32}

theorem toList_literalText (hx : x.isFinite = true) :
    x.literalText.toList = (if x.negative then ['-'] else []) ++
      if x.isIntegral then Nat.toDigits 10 x.wholePart ++ '.' :: ['0']
      else (Decimal.shortest .up x.code).positional.toList := by
  have hnan := isNaN_of_isFinite hx
  unfold literalText
  cases x.negative <;> cases x.isIntegral <;> simp [hnan, hx, Literal.toString_self]

theorem code_pos_of_not_isIntegral (hx : x.isFinite = true) (h : x.isIntegral = false) :
    0 < x.code := by
  by_contra hcode
  have hzero : x.code = 0 := by omega
  have hunits : x.units = 0 := by rw [units, hzero]; decide
  simp [isIntegral, hx, hunits] at h

/-- The text of a finite number is a numeral, of the same sign and within its interval. -/
theorem exists_numeral (hx : x.isFinite = true) :
    ∃ n : Numeral, x.literalText = n.text ∧ n.negative = x.negative ∧
      (Shortest.interval x.code).contains (2 * (n.digits * single.unitsPerOne)) n.scale = true := by
  have htext := toList_literalText hx
  cases hintegral : x.isIntegral with
  | true =>
    simp only [hintegral, if_true] at htext
    have hunits : x.wholePart * single.unitsPerOne = single.units x.code := by
      refine Nat.div_mul_cancel (Nat.dvd_of_mod_eq_zero ?_)
      simpa [isIntegral, hx] using hintegral
    refine ⟨.ofDigits x.negative x.wholePart (show ['0'] ≠ [] by simp) (by simp), ?_, rfl, ?_⟩
    · rw [← String.toList_inj, htext, Numeral.toList_text_ofDigits]
    · have hdouble : 2 * ((x.wholePart * 10 ^ 1 + 0) * single.unitsPerOne) =
          2 * single.units x.code * 10 := by
        rw [← hunits]
        ring
      rw [Numeral.digits_ofDigits]
      exact hdouble ▸ Shortest.contains_self x.code (by decide)
  | false =>
    simp only [hintegral, Bool.false_eq_true, if_false] at htext
    obtain ⟨n, ds, hpositional, hd, hne, k, hdigits, hk⟩ :=
      Json.toList_positional (Decimal.shortest .up x.code)
    refine ⟨.ofDigits x.negative n hne hd, ?_, rfl, ?_⟩
    · rw [← String.toList_inj, htext, hpositional, Numeral.toList_text_ofDigits]
    · rw [Numeral.digits_ofDigits, hdigits]
      exact Shortest.contains_shift hk
        (Shortest.contains_shortest .up (code_pos_of_not_isIntegral hx hintegral))

/-- The finite number is what a rational is rounded to: the nearest one, of two the even one, with a
sign that is given for zero as well. From half a step beyond the largest number on, rationals would
be rounded to infinity. -/
structure IsRounded (x : Binary32) (negative : Bool) (q : ℚ) : Prop extends IsNearest x q where
  sign : x.negative = negative
  bounded : |q| < 2 ^ 128 - 2 ^ 103

theorem IsRounded.unique {negative : Bool} {q : ℚ} (hx : x.IsRounded negative q)
    (hy : y.IsRounded negative q) : x = y :=
  hx.toIsNearest.unique hy.toIsNearest (hx.sign.trans hy.sign.symm)

end Binary32

namespace Numeral

variable {n : Numeral} {x : Binary32}

theorem abs_value (n : Numeral) : |n.value| = n.digits / n.scale := by
  rw [value, abs_mul, Binary32.abs_sign, one_mul, abs_of_nonneg (by positivity)]

/-- A numeral within the interval of a number is read as that number. -/
theorem toBinary32_eq_of_contains (hx : x.isFinite = true) (hsign : n.negative = x.negative)
    (h : (Shortest.interval x.code).contains (2 * (n.digits * single.unitsPerOne)) n.scale = true) :
    n.toBinary32 = x := by
  have hcode := Shortest.nearest_eq_of_contains n.scale_pos (Binary32.isFinite_iff.mp hx) h
  obtain ⟨hc, hs⟩ := Binary32.code_ofCode n.negative x.code_lt
  rw [toBinary32, Binary32.ofRatio, hcode]
  exact Binary32.ext_code (hs.trans hsign) hc

theorem isRounded_of_contains (hx : x.isFinite = true) (hsign : n.negative = x.negative)
    (h : (Shortest.interval x.code).contains (2 * (n.digits * single.unitsPerOne)) n.scale = true) :
    x.IsRounded n.negative n.value := by
  have hfinite := Binary32.isFinite_iff.mp hx
  have hnearest : single.nearest n.digits n.scale < single.infinity := by
    rwa [Shortest.nearest_eq_of_contains n.scale_pos hfinite h]
  have hrounded := Binary32.isNearest_ofRatio n.negative n.scale_pos hnearest
  have hread : Binary32.ofRatio n.negative n.digits n.scale = x :=
    toBinary32_eq_of_contains hx hsign h
  rw [hread] at hrounded
  refine ⟨hrounded, hsign.symm, ?_⟩
  have hscale : (0 : ℚ) < n.scale := by exact_mod_cast n.scale_pos
  rw [abs_value, div_lt_iff₀ hscale]
  have hlt := Shortest.lt_of_contains n.scale_pos hfinite h
  have hcast : ((2 ^ 128 - 2 ^ 103 : ℕ) : ℚ) = 2 ^ 128 - 2 ^ 103 := by norm_num
  rw [← hcast]
  exact_mod_cast hlt

end Numeral

/-! ### Literals -/

namespace Literal

/-- No component is infinite or no number at all. -/
def Finite (l : Literal) : Prop := ∀ x ∈ l.floats, x.isFinite = true

theorem literalText_injective {x y : Binary32} (hx : x.isFinite = true) (hy : y.isFinite = true)
    (h : x.literalText = y.literalText) : x = y := by
  obtain ⟨m, hm, hmsign, hmcontains⟩ := Binary32.exists_numeral hx
  obtain ⟨n, hn, hnsign, hncontains⟩ := Binary32.exists_numeral hy
  have hmn : m = n := Numeral.text_injective (by rw [← hm, ← hn, h])
  subst hmn
  rw [← Numeral.toBinary32_eq_of_contains hx hmsign hmcontains,
    ← Numeral.toBinary32_eq_of_contains hy hnsign hncontains]

/-- The components after the first one, up to the closing bracket. -/
def remaining : List Binary32 → List Char
  | [] => [')']
  | x :: xs => ',' :: ' ' :: (x.literalText.toList ++ remaining xs)

/-- What ends the text of a component. -/
def isInner (c : Char) : Bool := c != ',' && c != ')'

theorem isInner_literalText (x : Binary32) : ∀ c ∈ x.literalText.toList, isInner c = true := by
  have hcomma := not_mem_literalText (c := ',') (by decide) (by decide) x
  have hclose := not_mem_literalText (c := ')') (by decide) (by decide) x
  intro c hc
  simp only [isInner, Bool.and_eq_true, bne_iff_ne]
  exact ⟨fun h => hcomma (h ▸ hc), fun h => hclose (h ▸ hc)⟩

theorem head?_remaining (xs : List Binary32) : ∀ c ∈ (remaining xs).head?, isInner c = false := by
  cases xs <;> simp [remaining, isInner]

theorem component_inj {x y : Binary32} {xs ys : List Binary32}
    (h : x.literalText.toList ++ remaining xs = y.literalText.toList ++ remaining ys) :
    x.literalText = y.literalText ∧ remaining xs = remaining ys := by
  obtain ⟨htext, hrest⟩ := Numeral.append_inj_of_stop (isInner_literalText x)
    (isInner_literalText y) (head?_remaining xs) (head?_remaining ys) h
  exact ⟨String.toList_inj.mp htext, hrest⟩

theorem remaining_injective {xs ys : List Binary32} (hx : ∀ x ∈ xs, x.isFinite = true)
    (hy : ∀ y ∈ ys, y.isFinite = true) (h : remaining xs = remaining ys) : xs = ys := by
  induction xs generalizing ys with
  | nil =>
    cases ys with
    | nil => rfl
    | cons y ys => simp [remaining] at h
  | cons x xs ih =>
    cases ys with
    | nil => simp [remaining] at h
    | cons y ys =>
      simp only [remaining, List.cons.injEq, true_and] at h
      obtain ⟨htext, hrest⟩ := component_inj h
      obtain ⟨hx, hxs⟩ := List.forall_mem_cons.mp hx
      obtain ⟨hy, hys⟩ := List.forall_mem_cons.mp hy
      rw [literalText_injective hx hy htext, ih hxs hys hrest]

/-- The text of a vector: its type, and its components in brackets. -/
theorem toList_text_vector {l : Literal} {x y : Binary32} {xs : List Binary32}
    (h : l.floats = x :: y :: xs) :
    l.text.toList =
      l.type.name.toList ++ '(' :: (x.literalText.toList ++ remaining (y :: xs)) := by
  cases l <;> simp only [floats, List.cons.injEq, reduceCtorEq, and_false] at h
  all_goals
    obtain ⟨rfl, rfl, rfl⟩ := h
    simp [text, type, ValueType.name, remaining, toString_self]

theorem toList_text_int (i : Int32) : (int i).text.toList =
    (if decide (i.toInt < 0) then ['-'] else []) ++ Nat.toDigits 10 i.toInt.natAbs := by
  cases h : i.toInt with
  | ofNat n => simp [text, toString, Int.repr, h]
  | negSucc n => simp [text, toString, Int.repr, h]

theorem toList_text_uint (u : UInt32) :
    (uint u).text.toList = Nat.toDigits 10 u.toNat ++ ['u'] := by
  simp [text, toString_self]

/-! ### Kinds of literals -/

/-- The last character of a text that belongs to no number. -/
def lastMark (cs : List Char) : Option Char :=
  (cs.filter fun c => !c.isDigit && c != '-').getLast?

/-- The character by which literals of a kind are known. -/
def mark : Literal → Option Char
  | bool _ => some 'e'
  | int _ => none
  | uint _ => some 'u'
  | float _ => some '.'
  | _ => some ')'

theorem lastMark_append (a b : List Char) : lastMark (a ++ b) = (lastMark b).or (lastMark a) := by
  rw [lastMark, List.filter_append, List.getLast?_append]
  rfl

theorem lastMark_digits {ds : List Char} (hd : ∀ c ∈ ds, c.isDigit = true) : lastMark ds = none := by
  have hnil : (ds.filter fun c => !c.isDigit && c != '-') = [] := by
    rw [List.filter_eq_nil_iff]
    intro c hc
    simp [hd c hc]
  rw [lastMark, hnil]
  rfl

theorem lastMark_sign (negative : Bool) :
    lastMark (if negative then ['-'] else []) = none := by
  cases negative <;> rfl

theorem lastMark_remaining (xs : List Binary32) : lastMark (remaining xs) = some ')' := by
  induction xs with
  | nil => rfl
  | cons x xs ih =>
    have hsplit : remaining (x :: xs) = (", ".toList ++ x.literalText.toList) ++ remaining xs := by
      simp [remaining]
    rw [hsplit, lastMark_append, ih]
    rfl

theorem lastMark_text {l : Literal} (hl : l.Finite) : lastMark l.text.toList = l.mark := by
  have hvector {x y : Binary32} {xs : List Binary32} (h : l.floats = x :: y :: xs) :
      lastMark l.text.toList = some ')' := by
    rw [toList_text_vector h, ← List.cons_append, ← List.append_assoc, lastMark_append,
      lastMark_remaining]
    rfl
  cases l with
  | bool b => cases b <;> rfl
  | int i =>
    rw [toList_text_int, lastMark_append, lastMark_digits (Json.all_isDigit_toDigits _),
      lastMark_sign]
    rfl
  | uint u =>
    rw [toList_text_uint, lastMark_append]
    rfl
  | float x =>
    obtain ⟨n, hn, -, -⟩ := Binary32.exists_numeral (hl x (by simp [floats]))
    have hfraction : ∀ c ∈ n.fraction, c.isDigit = true :=
      fun c hc => n.isDigit c (List.mem_append_right _ hc)
    have htext : (float x).text.toList =
        (if n.negative then ['-'] else []) ++ n.whole ++ ['.'] ++ n.fraction := by
      simp [text, hn, Numeral.text, Numeral.chars]
    rw [htext, lastMark_append, lastMark_append, lastMark_digits hfraction]
    rfl
  | float2 x y => exact hvector rfl
  | float3 x y z => exact hvector rfl
  | float4 x y z w => exact hvector rfl

theorem exists_floats_of_mark {l : Literal} (h : l.mark = some ')') :
    ∃ x y xs, l.floats = x :: y :: xs := by
  cases l <;> simp [mark, floats] at h ⊢

theorem eq_of_floats_eq {l l' : Literal} (hne : l.floats ≠ []) (h : l.floats = l'.floats) :
    l = l' := by
  cases l <;> cases l' <;> simp_all [floats]

/-- The components of a vector can be told from its text. -/
theorem floats_eq_of_vectors {l l' : Literal} (hl : l.Finite) (hl' : l'.Finite)
    (hmark : l.mark = some ')') (hmark' : l'.mark = some ')') (h : l.text = l'.text) :
    l.floats = l'.floats := by
  obtain ⟨x, y, xs, hx⟩ := exists_floats_of_mark hmark
  obtain ⟨x', y', xs', hx'⟩ := exists_floats_of_mark hmark'
  have hname (t : ValueType) : ∀ c ∈ t.name.toList, (c != '(') = true := by
    refine List.all_eq_true.mp ?_
    cases t with
    | float dim => cases dim <;> rfl
    | _ => rfl
  have htext := congrArg String.toList h
  rw [toList_text_vector hx, toList_text_vector hx'] at htext
  obtain ⟨-, hrest⟩ := Numeral.append_inj_of_stop (hname _) (hname _) (by simp) (by simp) htext
  obtain ⟨hfirst, hremaining⟩ := component_inj (List.cons.inj hrest).2
  rw [Finite, hx] at hl
  rw [Finite, hx'] at hl'
  obtain ⟨hfinite, hfinites⟩ := List.forall_mem_cons.mp hl
  obtain ⟨hfinite', hfinites'⟩ := List.forall_mem_cons.mp hl'
  rw [hx, hx', literalText_injective hfinite hfinite' hfirst,
    remaining_injective hfinites hfinites' hremaining]

theorem toDigits_injective {m n : Nat} (h : Nat.toDigits 10 m = Nat.toDigits 10 n) : m = n := by
  rw [← Json.digitsValue_toDigits m, h, Json.digitsValue_toDigits]

theorem int_injective {i j : Int32} (h : (int i).text = (int j).text) : i = j := by
  have hhead (n : Nat) : (Nat.toDigits 10 n).head? ≠ some '-' := by
    simpa using Numeral.head?_ne_minus Nat.toDigits_ne_nil (Json.all_isDigit_toDigits n) []
  have htext := congrArg String.toList h
  rw [toList_text_int, toList_text_int] at htext
  obtain ⟨hsign, hdigits⟩ := Numeral.sign_inj (hhead _) (hhead _) htext
  have habs := toDigits_injective hdigits
  have hneg : i.toInt < 0 ↔ j.toInt < 0 := by simpa using hsign
  exact Int32.toInt_inj.mp (by omega)

theorem uint_injective {u v : UInt32} (h : (uint u).text = (uint v).text) : u = v := by
  have htext := congrArg String.toList h
  rw [toList_text_uint, toList_text_uint] at htext
  exact UInt32.toNat_inj.mp (toDigits_injective (List.append_cancel_right htext))

/-- No two finite literals have the same text. -/
theorem text_injective {l l' : Literal} (hl : l.Finite) (hl' : l'.Finite) (h : l.text = l'.text) :
    l = l' := by
  have hmark : l.mark = l'.mark := by rw [← lastMark_text hl, ← lastMark_text hl', h]
  by_cases hvector : l.mark = some ')'
  · refine eq_of_floats_eq ?_ (floats_eq_of_vectors hl hl' hvector (hmark ▸ hvector) h)
    obtain ⟨x, y, xs, hx⟩ := exists_floats_of_mark hvector
    simp [hx]
  · cases l with
    | bool a =>
      cases l' with
      | bool b => cases a <;> cases b <;> simp_all [text]
      | _ => simp [mark] at hmark
    | int i =>
      cases l' with
      | int j => rw [int_injective h]
      | _ => simp [mark] at hmark
    | uint u =>
      cases l' with
      | uint v => rw [uint_injective h]
      | _ => simp [mark] at hmark
    | float x =>
      cases l' with
      | float y => rw [literalText_injective (hl x (by simp [floats])) (hl' y (by simp [floats])) h]
      | _ => simp [mark] at hmark
    | _ => exact absurd rfl hvector

end Literal

/-- The text of a finite number is a numeral, one only, and the number is the only one to which the
decimal of the numeral is rounded. No two finite literals have the same text. -/
theorem literals_denote_numbers :
    (∀ x : Binary32, x.isFinite = true →
      ∃ n : Numeral, x.literalText = n.text ∧ (∀ m : Numeral, x.literalText = m.text → m = n) ∧
        n.toBinary32 = x ∧ x.IsRounded n.negative n.value ∧
        ∀ y : Binary32, y.IsRounded n.negative n.value → y = x) ∧
    ∀ l l' : Literal, l.Finite → l'.Finite → l.text = l'.text → l = l' := by
  refine ⟨fun x hx => ?_, fun l l' hl hl' h => Literal.text_injective hl hl' h⟩
  obtain ⟨n, htext, hsign, hcontains⟩ := Binary32.exists_numeral hx
  have hrounded := Numeral.isRounded_of_contains hx hsign hcontains
  refine ⟨n, htext, fun m hm => ?_, Numeral.toBinary32_eq_of_contains hx hsign hcontains, hrounded,
    fun y hy => hy.unique hrounded⟩
  exact Numeral.text_injective (hm.symm.trans htext)

-- zero keeps its sign, and the largest number has all its digits
example :
    (⟨0x80000000⟩ : Binary32).literalText = "-0.0" ∧
    (⟨0x7f7fffff⟩ : Binary32).literalText = "340282346638528859811704183484516925440.0" := by
  decide +kernel

/-- The least number below zero, and an integer that has been rounded. -/
theorem least_denoted :
    (⟨0x80000001⟩ : Binary32).literalText = "-0.000000000000000000000000000000000000000000001" ∧
    (∃ n : Numeral, (⟨0x80000001⟩ : Binary32).literalText = n.text ∧ n.toBinary32 = ⟨0x80000001⟩ ∧
      (⟨0x80000001⟩ : Binary32).IsRounded n.negative n.value) ∧
    (Literal.float (.ofInt 16777217)).text = "16777216.0" ∧
    Literal.float (.ofInt 16777217) = .float ⟨0x4b800000⟩ := by
  obtain ⟨hdenotes, hinjective⟩ := literals_denote_numbers
  have hleast : (⟨0x80000001⟩ : Binary32).literalText =
      "-0.000000000000000000000000000000000000000000001" := by decide +kernel
  have hint : (Literal.float (.ofInt 16777217)).text = "16777216.0" := by decide +kernel
  have hfloat : (Literal.float ⟨0x4b800000⟩).text = "16777216.0" := by decide +kernel
  obtain ⟨n, htext, -, hread, hrounded, -⟩ := hdenotes ⟨0x80000001⟩ (by decide +kernel)
  refine ⟨hleast, ⟨n, htext, hread, hrounded⟩, hint, ?_⟩
  refine hinjective _ _ ?_ ?_ (hint.trans hfloat.symm)
  · exact List.forall_mem_singleton.mpr (by decide +kernel)
  · exact List.forall_mem_singleton.mpr (by decide +kernel)

end ShaderGraph
