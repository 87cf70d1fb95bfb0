import Mathlib.Algebra.Group.Nat.Defs
import ShaderGraph.Json.Basic
import ShaderGraph.Proofs.Relation

/-! Text of JSON values is read back. Each token is read from its own characters as long as a number
is followed by a separator, and the tokens of a value are put together again to that value. Numbers
must be in the form in which they are read, the members of an object must have different names, and
containers must not be nested too deep. -/

namespace ShaderGraph

/-! ### Decimals -/

namespace Decimal

/-- Zero, or a number without trailing zeros. -/
def Tidy (d : Decimal) : Prop := d = ⟨0, 0⟩ ∨ d.digits % 10 ≠ 0

instance : DecidablePred Tidy := fun _ => inferInstanceAs (Decidable (_ ∨ _))

theorem dropZeros_mul {m : Nat} (hm : m % 10 ≠ 0) {k count : Nat} (hk : k ≤ count) (x : Int) :
    dropZeros count ⟨m * 10 ^ k, x⟩ = ⟨m, x + k⟩ := by
  induction k generalizing count x with
  | zero => cases count <;> simp [dropZeros, hm]
  | succ k ih =>
    obtain ⟨count, rfl⟩ := Nat.exists_eq_add_of_le' (Nat.lt_of_lt_of_le k.succ_pos hk)
    have hzero : m * 10 ^ (k + 1) % 10 = 0 := by
      rw [Nat.pow_succ, ← Nat.mul_assoc, Nat.mul_mod_left]
    have hdiv : m * 10 ^ (k + 1) / 10 = m * 10 ^ k := by
      rw [Nat.pow_succ, ← Nat.mul_assoc, Nat.mul_div_cancel _ (by decide)]
    have hexponent : x + 1 + (k : Int) = x + ((k + 1 : Nat) : Int) := by omega
    rw [dropZeros, if_pos hzero, hdiv, ih (by omega), hexponent]

/-- Zeros appended to the digits are dropped again. -/
theorem normal_shift {d : Decimal} (hd : d.Tidy) (k : Nat) :
    normal ⟨d.digits * 10 ^ k, d.exponent - k⟩ = d := by
  obtain rfl | hd := hd
  · simp [normal]
  · have hpos : 0 < d.digits := by omega
    have hdigits : 10 ^ k ≤ d.digits * 10 ^ k := Nat.le_mul_of_pos_left _ hpos
    have hne : d.digits * 10 ^ k ≠ 0 :=
      Nat.ne_of_gt (Nat.lt_of_lt_of_le (Nat.pow_pos (by decide)) hdigits)
    have hk : k ≤ Nat.log2 (d.digits * 10 ^ k) := by
      rw [Nat.le_log2 hne]
      exact (Nat.pow_le_pow_left (by decide) k).trans hdigits
    rw [normal, if_neg hne, dropZeros_mul hd hk]
    simp

end Decimal

namespace Json

/-! ### Digits -/

theorem digitsValue_eq (cs : List Char) : digitsValue cs = Nat.ofDigitChars 10 cs 0 := by
  rw [Nat.ofDigitChars_eq_foldl]
  simp only [digitsValue, Nat.mul_comm]

theorem digitsValue_append (a b : List Char) :
    digitsValue (a ++ b) = digitsValue a * 10 ^ b.length + digitsValue b := by
  simp only [digitsValue_eq, Nat.ofDigitChars_append]
  rw [Nat.ofDigitChars_eq_ofDigitChars_zero, Nat.mul_comm]

theorem digitsValue_toDigits (n : Nat) : digitsValue (Nat.toDigits 10 n) = n := by
  rw [digitsValue_eq, Nat.ofDigitChars_ten_toDigits]

theorem digitsValue_zeros (n : Nat) : digitsValue (List.replicate n '0') = 0 := by
  rw [digitsValue_eq, Nat.ofDigitChars_replicate_zero, Nat.mul_zero]

/-- A positive number does not start with zero. -/
theorem head?_toDigits_ne {n : Nat} (h : n ≠ 0) : (Nat.toDigits 10 n).head? ≠ some '0' := by
  induction n using Nat.strongRecOn with
  | ind n ih =>
    rw [Nat.toDigits_eq_if (by decide)]
    split
    next hlt =>
      have hall : ∀ n < 10, n ≠ 0 → [Nat.digitChar n].head? ≠ some '0' := by decide
      exact hall n hlt h
    next hge =>
      rw [List.head?_append_of_ne_nil _ Nat.toDigits_ne_nil]
      exact ih (n / 10) (by omega) (by omega)

theorem all_isDigit_toDigits (n : Nat) : ∀ c ∈ Nat.toDigits 10 n, c.isDigit = true :=
  fun _ hc => Local.isDigit_of_mem_digits hc

/-- What may follow a number. -/
def Delimited (rest : List Char) : Prop :=
  ∀ c, rest.head? = some c → c = ',' ∨ c = ']' ∨ c = '\x7d'

/-- Nothing is taken from a text whose first character is not taken. -/
theorem takeWhile_eq_nil {p : Char → Bool} {rest : List Char}
    (hr : ∀ c, rest.head? = some c → p c = false) : rest.takeWhile p = [] := by
  cases rest with
  | nil => rfl
  | cons c rest => simp [hr c rfl]

theorem spanDigits_append {ds rest : List Char} (hd : ∀ c ∈ ds, c.isDigit = true)
    (hr : ∀ c, rest.head? = some c → c.isDigit = false) : spanDigits (ds ++ rest) = (ds, rest) := by
  have hdrop : rest.dropWhile Char.isDigit = rest := by
    cases rest with
    | nil => rfl
    | cons c rest => simp [hr c rfl]
  rw [spanDigits, List.takeWhile_append_of_pos hd, List.dropWhile_append_of_pos hd,
    takeWhile_eq_nil hr, hdrop, List.append_nil]

theorem Delimited.not_isDigit {rest : List Char} (h : Delimited rest) :
    ∀ c, rest.head? = some c → c.isDigit = false := by
  intro c hc
  rcases h c hc with rfl | rfl | rfl <;> decide

/-! ### Numbers -/

theorem wholePart_span {ds rest : List Char} (hd : ∀ c ∈ ds, c.isDigit = true) (hne : ds ≠ [])
    (hhead : ds.head? ≠ some '0') (hr : ∀ c, rest.head? = some c → c.isDigit = false) :
    wholePart (ds ++ rest) = some (ds, rest) := by
  unfold wholePart
  split
  next heq =>
    obtain ⟨c, ds, rfl⟩ := List.exists_cons_of_ne_nil hne
    obtain ⟨rfl, -⟩ := List.cons.inj heq
    exact absurd rfl hhead
  next =>
    rw [spanDigits_append hd hr]
    split
    next heq => exact absurd (Prod.mk.inj heq).1 hne
    next => rfl

theorem wholePart_toDigits (n : Nat) {rest : List Char}
    (hr : ∀ c, rest.head? = some c → c.isDigit = false) :
    wholePart (Nat.toDigits 10 n ++ rest) = some (Nat.toDigits 10 n, rest) := by
  by_cases hn : n = 0
  · subst hn
    rw [Nat.toDigits_zero]
    rfl
  · exact wholePart_span (all_isDigit_toDigits n) Nat.toDigits_ne_nil (head?_toDigits_ne hn) hr

theorem fractionPart_point {ds rest : List Char} (hd : ∀ c ∈ ds, c.isDigit = true) (hne : ds ≠ [])
    (hr : ∀ c, rest.head? = some c → c.isDigit = false) :
    fractionPart ('.' :: (ds ++ rest)) = some (ds, rest) := by
  rw [fractionPart, spanDigits_append hd hr]
  split
  next heq => exact absurd (Prod.mk.inj heq).1 hne
  next => rfl

theorem fractionPart_none {rest : List Char} (h : rest.head? ≠ some '.') :
    fractionPart rest = some ([], rest) := by
  unfold fractionPart
  split
  next => exact absurd rfl h
  next => rfl

theorem exponentPart_none {rest : List Char} (he : rest.head? ≠ some 'e')
    (hE : rest.head? ≠ some 'E') : exponentPart rest = some (none, rest) := by
  cases rest with
  | nil => rfl
  | cons c rest =>
    have hc : ¬(c == 'e' || c == 'E') = true := by simp_all
    exact if_neg hc

theorem exponentPart_mark (x : Int) {rest : List Char}
    (hr : ∀ c, rest.head? = some c → c.isDigit = false) :
    exponentPart ('e' :: (if x < 0 then '-' else '+') :: (Nat.toDigits 10 x.natAbs ++ rest)) =
      some (some x, rest) := by
  have hspan := spanDigits_append (all_isDigit_toDigits x.natAbs) hr
  have hne : Nat.toDigits 10 x.natAbs ≠ [] := Nat.toDigits_ne_nil
  have hvalue := digitsValue_toDigits x.natAbs
  generalize Nat.toDigits 10 x.natAbs = ds at hspan hne hvalue ⊢
  by_cases hx : x < 0
  · simp only [if_pos hx, exponentPart, beq_self_eq_true, Bool.true_or, if_true,
      hspan, hvalue]
    simp only [Option.some.injEq, Prod.mk.injEq, and_true]
    omega
  · simp only [if_neg hx, exponentPart, beq_self_eq_true, Bool.true_or, if_true,
      hspan, hvalue]
    simp only [Bool.false_eq_true, if_false, Option.some.injEq, Prod.mk.injEq, and_true]
    omega

namespace Delimited

variable {rest : List Char} (h : Delimited rest)

include h

theorem fractionPart : fractionPart rest = some ([], rest) :=
  fractionPart_none fun hc => absurd (h _ hc) (by decide)

theorem exponentPart : exponentPart rest = some (none, rest) :=
  exponentPart_none (fun hc => absurd (h _ hc) (by decide)) fun hc => absurd (h _ hc) (by decide)

theorem readUnsigned_toDigits (negative : Bool) (n : Nat) (hn : negative = true → n ≠ 0) :
    readUnsigned negative (Nat.toDigits 10 n ++ rest) =
      some (.int (if negative then -n else n), rest) := by
  have hzero : ¬(negative = true ∧ n = 0) := fun hz => hn hz.1 hz.2
  simp [readUnsigned, wholePart_toDigits n h.not_isDigit, h.fractionPart, h.exponentPart,
    digitsValue_toDigits, hzero]

/-- A number with a point. -/
theorem readUnsigned_point (negative : Bool) (n : Nat) {ds : List Char}
    (hd : ∀ c ∈ ds, c.isDigit = true) (hne : ds ≠ []) :
    readUnsigned negative (Nat.toDigits 10 n ++ '.' :: (ds ++ rest)) =
      some (.decimal negative
        (Decimal.normal ⟨n * 10 ^ ds.length + digitsValue ds, -ds.length⟩), rest) := by
  have hwhole := wholePart_toDigits n
    (show ∀ c, ('.' :: (ds ++ rest)).head? = some c → c.isDigit = false by simp)
  simp [readUnsigned, hwhole, fractionPart_point hd hne h.not_isDigit, h.exponentPart,
    digitsValue_append, digitsValue_toDigits, hne]

/-- A number with an exponent, and a point if there is more than one digit. -/
theorem readUnsigned_exponent (negative : Bool) {c : Char} {ds : List Char}
    (hd : ∀ d ∈ c :: ds, d.isDigit = true) (hc : c ≠ '0') (x : Int) :
    readUnsigned negative (c :: ((if ds = [] then [] else '.' :: ds) ++
      'e' :: (if x < 0 then '-' else '+') :: (Nat.toDigits 10 x.natAbs ++ rest))) =
      some (.decimal negative (Decimal.normal ⟨digitsValue (c :: ds), x - ds.length⟩), rest) := by
  have hmark := exponentPart_mark x h.not_isDigit
  generalize (if x < 0 then '-' else '+') :: (Nat.toDigits 10 x.natAbs ++ rest) = mark at hmark ⊢
  have hone : ∀ d ∈ [c], d.isDigit = true := by
    intro d hmem
    exact hd d (by simp_all)
  have hhead : [c].head? ≠ some '0' := by simpa using hc
  by_cases hds : ds = []
  · subst hds
    have hwhole := wholePart_span hone (by simp) hhead
      (show ∀ d, ('e' :: mark).head? = some d → d.isDigit = false by simp)
    have hfraction := fractionPart_none (show ('e' :: mark).head? ≠ some '.' by simp)
    rw [List.singleton_append] at hwhole
    simp [readUnsigned, hwhole, hfraction, hmark]
  · have hwhole := wholePart_span hone (by simp) hhead
      (show ∀ d, ('.' :: (ds ++ 'e' :: mark)).head? = some d → d.isDigit = false by simp)
    have hfraction := fractionPart_point (fun d hmem => hd d (List.mem_cons_of_mem c hmem)) hds
      (show ∀ d, ('e' :: mark).head? = some d → d.isDigit = false by simp)
    rw [List.singleton_append] at hwhole
    simp [readUnsigned, hds, hwhole, hfraction, hmark]

end Delimited

/-- The decimal with its point in place has the digits of the decimal, with zeros after them at
most. -/
theorem toList_positional (d : Decimal) :
    ∃ n ds, d.positional.toList = Nat.toDigits 10 n ++ '.' :: ds ∧ (∀ c ∈ ds, c.isDigit = true) ∧
      ds ≠ [] ∧ ∃ k : Nat, n * 10 ^ ds.length + digitsValue ds = d.digits * 10 ^ k ∧
        -(ds.length : Int) = d.exponent - k := by
  have htext : d.positional.toList =
      Nat.toDigits 10 (d.digits * 10 ^ d.exponent.toNat / 10 ^ (-d.exponent).toNat) ++
        '.' :: (List.replicate ((-d.exponent).toNat - (Nat.toDigits 10
          (d.digits * 10 ^ d.exponent.toNat % 10 ^ (-d.exponent).toNat)).length) '0' ++
          Nat.toDigits 10 (d.digits * 10 ^ d.exponent.toNat % 10 ^ (-d.exponent).toNat)) := by
    simp [Decimal.positional, Literal.toString_self, Literal.toList_pushn,
      String.length_toList.symm]
  refine ⟨_, _, htext, ?_, by simp, ?_⟩
  · intro c hc
    rcases List.mem_append.mp hc with hc | hc
    · rw [List.eq_of_mem_replicate hc]
      rfl
    · exact all_isDigit_toDigits _ c hc
  · rw [digitsValue_append, digitsValue_zeros, digitsValue_toDigits, Nat.zero_mul, Nat.zero_add]
    by_cases hx : d.exponent < 0
    · have hzero : d.exponent.toNat = 0 := by omega
      rw [hzero, Nat.pow_zero, Nat.mul_one]
      generalize hk : (-d.exponent).toNat = k
      have hlength : (Nat.toDigits 10 (d.digits % 10 ^ k)).length ≤ k := by
        rw [Nat.length_toDigits_le_iff (by decide) (by omega)]
        exact Nat.mod_lt _ (Nat.pow_pos (by decide))
      refine ⟨0, ?_, ?_⟩
      · rw [List.length_append, List.length_replicate, Nat.sub_add_cancel hlength, Nat.pow_zero,
          Nat.mul_one, Nat.mul_comm]
        exact Nat.div_add_mod d.digits (10 ^ k)
      · rw [List.length_append, List.length_replicate, Nat.sub_add_cancel hlength]
        omega
    · have hzero : (-d.exponent).toNat = 0 := by omega
      rw [hzero, Nat.pow_zero, Nat.div_one, Nat.mod_one, Nat.toDigits_zero]
      refine ⟨d.exponent.toNat + 1, ?_, ?_⟩
      · simp [Nat.pow_succ, Nat.mul_assoc]
      · simp
        omega

theorem readUnsigned_decimalChars {d : Decimal} (hd : d.Tidy) {rest : List Char}
    (h : Delimited rest) (negative : Bool) :
    readUnsigned negative (decimalChars d ++ rest) = some (.decimal negative d, rest) := by
  unfold decimalChars
  dsimp only
  split
  next =>
    obtain ⟨n, ds, htext, hdigits, hne, k, hvalue, hexponent⟩ := toList_positional d
    rw [htext, List.append_assoc, List.cons_append, h.readUnsigned_point negative n hdigits hne,
      hvalue, hexponent, Decimal.normal_shift hd k]
  next hpoint =>
    obtain rfl | hmod := id hd
    · exact absurd (by decide) hpoint
    · have hhead := head?_toDigits_ne (n := d.digits) (by omega)
      have hall := all_isDigit_toDigits d.digits
      have hvalue := digitsValue_toDigits d.digits
      have hne : Nat.toDigits 10 d.digits ≠ [] := Nat.toDigits_ne_nil
      generalize Nat.toDigits 10 d.digits = ds at *
      obtain ⟨c, ds, rfl⟩ := List.exists_cons_of_ne_nil hne
      have hread := h.readUnsigned_exponent negative hall (by simpa using hhead)
        ((c :: ds).length + d.exponent - 1)
      have hexponent :
          ((c :: ds).length : Int) + d.exponent - 1 - ds.length = d.exponent - (0 : Nat) := by
        simp
        omega
      have hnormal := Decimal.normal_shift hd 0
      rw [Nat.pow_zero, Nat.mul_one] at hnormal
      rw [hvalue, hexponent, hnormal] at hread
      simpa using hread

/-! ### Strings -/

theorem hex4?_control (n : Nat) (h : n < 0x20) :
    hex4? '0' '0' (Nat.digitChar (n / 16)) (Nat.digitChar (n % 16)) = some n := by
  have hall : ∀ n < 0x20,
      hex4? '0' '0' (Nat.digitChar (n / 16)) (Nat.digitChar (n % 16)) = some n := by
    decide
  exact hall n h

theorem stringBody_escaped (c : Char) (rest : List Char) :
    stringBody (escaped c ++ rest) = (stringBody rest).map fun (cs, rest) => (c :: cs, rest) := by
  by_cases hmark : c = '"' ∨ c = '\\' ∨ c = '\n' ∨ c = '\t' ∨ c = '\r' ∨ c = '\x08' ∨ c = '\x0c'
  · rcases hmark with rfl | rfl | rfl | rfl | rfl | rfl | rfl <;> rfl
  · simp only [not_or] at hmark
    obtain ⟨hquote, hslash, hnewline, htab, hreturn, hback, hfeed⟩ := hmark
    unfold escaped
    simp only [beq_iff_eq, hquote, hslash, hnewline, htab, hreturn, hback, hfeed, if_false]
    split
    next hcontrol =>
      have hofNat : Char.ofNat c.toNat = c := Char.ofNat_toNat c
      simp only [List.cons_append, List.nil_append]
      rw [stringBody]
      simp only [hex4?_control c.toNat hcontrol, hofNat]
      rw [if_neg (by omega), if_neg (by omega)]
    next hplain =>
      rw [List.singleton_append, stringBody.eq_def]
      split <;> simp_all

theorem stringBody_quoted (cs rest : List Char) :
    stringBody (cs.flatMap escaped ++ '"' :: rest) = some (cs, rest) := by
  induction cs with
  | nil => rfl
  | cons c cs ih =>
    rw [List.flatMap_cons, List.append_assoc, stringBody_escaped, ih]
    rfl

/-! ### Tokens -/

theorem toDigits_eq_cons (n : Nat) : ∃ c cs, Nat.toDigits 10 n = c :: cs ∧ c.isDigit = true := by
  obtain ⟨c, cs, hcons⟩ := List.exists_cons_of_ne_nil (Nat.toDigits_ne_nil (b := 10) (n := n))
  exact ⟨c, cs, hcons, all_isDigit_toDigits n c (by simp [hcons])⟩

theorem decimalChars_eq_cons (d : Decimal) :
    ∃ c cs, decimalChars d = c :: cs ∧ c.isDigit = true := by
  unfold decimalChars
  dsimp only
  split
  next =>
    obtain ⟨n, ds, htext, -⟩ := toList_positional d
    obtain ⟨c, cs, hcons, hc⟩ := toDigits_eq_cons n
    exact ⟨c, cs ++ '.' :: ds, by rw [htext, hcons]; rfl, hc⟩
  next =>
    obtain ⟨c, cs, hcons, hc⟩ := toDigits_eq_cons d.digits
    rw [hcons]
    exact ⟨c, _, rfl, hc⟩

theorem readNumber_of_isDigit {c : Char} (hc : c.isDigit = true) (cs : List Char) :
    readNumber (c :: cs) = readUnsigned false (c :: cs) := by
  unfold readNumber
  split
  next heq =>
    obtain ⟨rfl, -⟩ := List.cons.inj heq
    exact absurd hc (by decide)
  next => rfl

/-- Numbers in the form in which they are read. -/
def Number.Tidy : Number → Prop
  | int _ => True
  | decimal _ d => d.Tidy

theorem Number.chars_eq_cons (n : Number) :
    ∃ c cs, n.chars = c :: cs ∧ (c = '-' ∨ c.isDigit = true) := by
  cases n with
  | int n =>
    cases n with
    | ofNat n =>
      obtain ⟨c, cs, hcons, hc⟩ := toDigits_eq_cons n
      exact ⟨c, cs, by simp [chars, toString, Int.repr, hcons], .inr hc⟩
    | negSucc n => exact ⟨'-', _, by simp [chars, toString, Int.repr]; rfl, .inl rfl⟩
  | decimal negative d =>
    cases negative with
    | false =>
      obtain ⟨c, cs, hcons, hc⟩ := decimalChars_eq_cons d
      exact ⟨c, cs, by simp [chars, hcons], .inr hc⟩
    | true => exact ⟨'-', _, rfl, .inl rfl⟩

theorem readNumber_chars {n : Number} (hn : n.Tidy) {rest : List Char} (h : Delimited rest) :
    readNumber (n.chars ++ rest) = some (n, rest) := by
  cases n with
  | int n =>
    cases n with
    | ofNat n =>
      have hread := h.readUnsigned_toDigits false n nofun
      obtain ⟨c, cs, hcons, hc⟩ := toDigits_eq_cons n
      have hchars : (Number.int (.ofNat n)).chars = c :: cs := by
        simp [Number.chars, toString, Int.repr, hcons]
      rw [hcons] at hread
      rw [hchars, List.cons_append, readNumber_of_isDigit hc]
      exact hread
    | negSucc n =>
      have hread := h.readUnsigned_toDigits true (n + 1) (by simp)
      have hchars : (Number.int (.negSucc n)).chars = '-' :: Nat.toDigits 10 (n + 1) := by
        simp [Number.chars, toString, Int.repr]
      rw [hchars, List.cons_append, readNumber, hread]
      rfl
  | decimal negative d =>
    have hread := readUnsigned_decimalChars (d := d) hn h negative
    cases negative with
    | false =>
      obtain ⟨c, cs, hcons, hc⟩ := decimalChars_eq_cons d
      have hchars : (Number.decimal false d).chars = c :: cs := hcons
      rw [hcons] at hread
      rw [hchars, List.cons_append, readNumber_of_isDigit hc]
      exact hread
    | true => exact hread

namespace Token

def Tidy : Token → Prop
  | number n => n.Tidy
  | _ => True

def isNumber : Token → Bool
  | number _ => true
  | _ => false

theorem first?_of_number {c : Char} (hc : c = '-' ∨ c.isDigit = true) (cs : List Char) :
    first? (c :: cs) = (readNumber (c :: cs)).map fun (n, rest) => (.number n, rest) := by
  unfold first?
  split
  case h_11 => rfl
  all_goals
    next heq =>
      obtain ⟨rfl, -⟩ := List.cons.inj heq
      exact absurd hc (by decide)

/-- A token is read from its characters. -/
theorem first?_chars {t : Token} (ht : t.Tidy) {rest : List Char}
    (hr : t.isNumber = true → Delimited rest) : first? (t.chars ++ rest) = some (t, rest) := by
  cases t with
  | null | leftBracket | rightBracket | leftBrace | rightBrace | colon | comma => rfl
  | bool b => cases b <;> rfl
  | string s =>
    have hbody := stringBody_quoted s.toList rest
    simp [chars, quoted, first?, hbody]
  | number n =>
    have hread := readNumber_chars ht (hr rfl)
    obtain ⟨c, cs, hcons, hc⟩ := n.chars_eq_cons
    rw [chars]
    rw [hcons] at hread ⊢
    rw [List.cons_append] at hread ⊢
    rw [first?_of_number hc, hread]
    rfl

theorem chars_eq_cons (t : Token) : ∃ c cs, t.chars = c :: cs ∧ isSpace c = false := by
  cases t with
  | bool b => cases b <;> exact ⟨_, _, rfl, rfl⟩
  | number n =>
    obtain ⟨c, cs, hcons, hc⟩ := n.chars_eq_cons
    refine ⟨c, cs, hcons, ?_⟩
    rcases hc with rfl | hc
    · rfl
    · have hne : c ≠ ' ' ∧ c ≠ '\n' ∧ c ≠ '\t' ∧ c ≠ '\r' := by
        refine ⟨?_, ?_, ?_, ?_⟩ <;> rintro rfl <;> exact absurd hc (by decide)
      simp [isSpace, hne]
  | _ => exact ⟨_, _, rfl, rfl⟩

/-- The tokens after which no more digits can come. -/
def endsNumber : Token → Bool
  | comma | rightBracket | rightBrace => true
  | _ => false

/-- Every number is followed by a token that ends it, or by nothing. -/
abbrev Spaced (ts : List Token) : Prop :=
  ts.IsChain fun t u => t.isNumber = true → u.endsNumber = true

theorem delimited {ts : List Token} (h : ∀ u, ts.head? = some u → u.endsNumber = true) :
    Delimited (ts.flatMap chars) := by
  cases ts with
  | nil => nofun
  | cons u ts =>
    have hu := h u rfl
    intro c hc
    cases u with
    | comma => exact .inl (Option.some.inj hc).symm
    | rightBracket => exact .inr (.inl (Option.some.inj hc).symm)
    | rightBrace => exact .inr (.inr (Option.some.inj hc).symm)
    | _ => cases hu

theorem readAll_flatMap {ts : List Token} (ht : ∀ t ∈ ts, t.Tidy) (hs : Spaced ts) {fuel : Nat}
    (hf : ts.length ≤ fuel) : readAll fuel (ts.flatMap chars) = some ts := by
  induction ts generalizing fuel with
  | nil => cases fuel <;> rfl
  | cons t ts ih =>
    obtain ⟨fuel, rfl⟩ := Nat.exists_eq_add_of_le' (Nat.lt_of_lt_of_le (Nat.succ_pos _) hf)
    have hrest := ih (fun u hu => ht u (List.mem_cons_of_mem t hu)) hs.tail
      (Nat.le_of_succ_le_succ hf)
    have hdelimited : t.isNumber = true → Delimited (ts.flatMap chars) := fun hn =>
      delimited fun u hu => hs.rel_head? hu hn
    have hfirst := first?_chars (ht t List.mem_cons_self) hdelimited
    obtain ⟨c, cs, hcons, hspace⟩ := t.chars_eq_cons
    rw [List.flatMap_cons]
    rw [hcons, List.cons_append] at hfirst ⊢
    unfold readAll
    simp only [List.dropWhile_cons, hspace, Bool.false_eq_true, if_false, hfirst]
    simp [hrest]

theorem ofText?_flatMap {ts : List Token} (ht : ∀ t ∈ ts, t.Tidy) (hs : Spaced ts) :
    ofText? (ts.flatMap chars) = some ts := by
  refine readAll_flatMap ht hs ?_
  clear hs ht
  induction ts with
  | nil => simp
  | cons t ts ih =>
    obtain ⟨c, cs, hcons, -⟩ := t.chars_eq_cons
    rw [List.flatMap_cons, hcons, List.length_append, List.length_cons, List.length_cons]
    omega

end Token

/-! ### Values -/

/-- The value can be read back: its numbers are tidy, the members of each object have different
names, and containers stand in each other up to the given depth. -/
inductive Tidy : Nat → Json → Prop
  | null {n} : Tidy n .null
  | bool {n} (b : Bool) : Tidy n (.bool b)
  | number {n x} (h : x.Tidy) : Tidy n (.number x)
  | string {n} (s : String) : Tidy n (.string s)
  | array {n items} (h : ∀ j ∈ items, Tidy n j) : Tidy (n + 1) (.array items)
  | object {n members} (h : ∀ m ∈ members, Tidy n m.2) (hd : (members.map Prod.fst).Nodup) :
      Tidy (n + 1) (.object members)

theorem Tidy.mono {m n : Nat} {j : Json} (hmn : m ≤ n) (h : Tidy m j) : Tidy n j := by
  induction h generalizing n with
  | null => exact .null
  | bool b => exact .bool b
  | number h => exact .number h
  | string s => exact .string s
  | array _ ih =>
    obtain ⟨n, rfl⟩ := Nat.exists_eq_add_of_le' (Nat.lt_of_lt_of_le (Nat.succ_pos _) hmn)
    exact .array fun j hj => ih j hj (Nat.le_of_succ_le_succ hmn)
  | object _ hd ih =>
    obtain ⟨n, rfl⟩ := Nat.exists_eq_add_of_le' (Nat.lt_of_lt_of_le (Nat.succ_pos _) hmn)
    exact .object (fun m hm => ih m hm (Nat.le_of_succ_le_succ hmn)) hd

theorem itemTokens_cons (i k : Json) (items : List Json) :
    itemTokens (i :: k :: items) = i.tokens ++ .comma :: itemTokens (k :: items) := by
  rw [itemTokens]
  simp

theorem memberTokens_cons (m k : String × Json) (members : List (String × Json)) :
    memberTokens (m :: k :: members) =
      .string m.1 :: .colon :: m.2.tokens ++ .comma :: memberTokens (k :: members) := by
  rw [memberTokens]
  simp

/-- Tokens that are read back from their text. -/
structure Legible (ts : List Token) : Prop where
  tidy : ∀ t ∈ ts, t.Tidy
  spaced : Token.Spaced ts

namespace Legible

variable {t : Token} {ts us : List Token}

theorem single (ht : t.Tidy) : Legible [t] := ⟨by simpa using ht, .singleton _⟩

theorem append (h : Legible ts) (h' : Legible us)
    (hu : ∀ u, us.head? = some u → u.endsNumber = true) : Legible (ts ++ us) := by
  refine ⟨fun t ht => (List.mem_append.mp ht).elim (h.tidy t) (h'.tidy t), ?_⟩
  exact List.isChain_append.mpr ⟨h.spaced, h'.spaced, fun t _ u hmem _ => hu u hmem⟩

theorem cons (ht : t.isNumber = false) (h : Legible ts) : Legible (t :: ts) := by
  have htidy : t.Tidy := by
    cases t with
    | number => cases ht
    | _ => trivial
  refine ⟨List.forall_mem_cons.mpr ⟨htidy, h.tidy⟩, ?_⟩
  exact List.isChain_cons.mpr ⟨fun u _ hn => absurd hn (by simp [ht]), h.spaced⟩

theorem items {items : List Json} (h : ∀ j ∈ items, Legible j.tokens) :
    Legible (itemTokens items) := by
  induction items with
  | nil => exact ⟨by simp [itemTokens], by simp [itemTokens]⟩
  | cons j items ih =>
    have hrest := ih fun i hi => h i (List.mem_cons_of_mem j hi)
    cases items with
    | nil => simpa [itemTokens] using h j List.mem_cons_self
    | cons i items =>
      rw [itemTokens_cons]
      exact (h j List.mem_cons_self).append (hrest.cons rfl) (by simp [Token.endsNumber])

theorem members {members : List (String × Json)} (h : ∀ m ∈ members, Legible m.2.tokens) :
    Legible (memberTokens members) := by
  induction members with
  | nil => exact ⟨by simp [memberTokens], by simp [memberTokens]⟩
  | cons m members ih =>
    have hrest := ih fun i hi => h i (List.mem_cons_of_mem m hi)
    have hfirst : Legible (.string m.1 :: .colon :: m.2.tokens) :=
      ((h m List.mem_cons_self).cons rfl).cons rfl
    cases members with
    | nil => simpa [memberTokens] using hfirst
    | cons i members =>
      rw [memberTokens_cons]
      exact hfirst.append (hrest.cons rfl) (by simp [Token.endsNumber])

end Legible

theorem Tidy.legible {n : Nat} {j : Json} (h : Tidy n j) : Legible j.tokens := by
  induction h with
  | number h => exact .single h
  | null | bool | string => exact .single trivial
  | array _ ih =>
    have hclosed := (Legible.items ih).append (.single (t := .rightBracket) trivial)
      (by simp [Token.endsNumber])
    rw [tokens]
    exact hclosed.cons rfl
  | object _ _ ih =>
    have hclosed := (Legible.members ih).append (.single (t := .rightBrace) trivial)
      (by simp [Token.endsNumber])
    rw [tokens]
    exact hclosed.cons rfl

namespace Reader

theorem distinct_eq {members : List (String × Json)} (h : (members.map Prod.fst).Nodup) :
    distinct members = members := by
  suffices hfold : ∀ kept : List (String × Json), ((kept ++ members).map Prod.fst).Nodup →
      members.foldl (fun kept m => kept.filter (·.1 != m.1) ++ [m]) kept = kept ++ members from
    hfold [] h
  clear h
  induction members with
  | nil => simp
  | cons m members ih =>
    intro kept h
    have hkept : kept.filter (·.1 != m.1) = kept := by
      refine List.filter_eq_self.mpr fun a ha => ?_
      rw [List.map_append, List.nodup_append] at h
      have hne := h.2.2 a.1 (List.mem_map_of_mem ha) m.1 (by simp)
      simpa using hne
    rw [List.foldl_cons, hkept, ih, List.append_assoc]
    · rfl
    · simpa using h

/-- The reader takes in the tokens of a value, and goes on after it. -/
def Reads (j : Json) (stack : List Frame) : Prop :=
  ∀ rest, (j.tokens ++ rest).foldlM step ⟨stack, .value⟩ =
    (put stack j).bind fun r => rest.foldlM step r

variable {stack : List Frame} {r r' : Reader} {t : Token}

theorem foldlM_step (h : step r t = some r') (ts : List Token) :
    (t :: ts).foldlM step r = ts.foldlM step r' := by
  rw [List.foldlM_cons, h]
  rfl

theorem reads_items (stack : List Frame) {i : Json} {items : List Json} (done : List Json)
    (h : ∀ j ∈ i :: items, ∀ done, Reads j (.items done :: stack)) (rest : List Token) :
    (itemTokens (i :: items) ++ .rightBracket :: rest).foldlM step ⟨.items done :: stack, .value⟩ =
      (put stack (.array (done.reverse ++ i :: items))).bind fun r => rest.foldlM step r := by
  have hfirst := h i List.mem_cons_self done
  induction items generalizing i done with
  | nil =>
    have hclose : step ⟨.items (i :: done) :: stack, .separator⟩ .rightBracket =
        put stack (.array (done.reverse ++ [i])) := by
      rw [← List.reverse_cons]
      rfl
    rw [itemTokens, hfirst, put, Option.bind_some, List.foldlM_cons, hclose]
    rfl
  | cons k items ih =>
    have hcomma : step ⟨.items (i :: done) :: stack, .separator⟩ .comma =
        some ⟨.items (i :: done) :: stack, .value⟩ := rfl
    have hrest := ih (i :: done) (fun j hj => h j (List.mem_cons_of_mem i hj)) (h k (by simp) _)
    rw [itemTokens_cons, List.append_assoc, List.cons_append, hfirst, put,
      Option.bind_some, foldlM_step hcomma, hrest, List.reverse_cons, List.append_assoc]
    rfl

theorem reads_members (stack : List Frame) {m : String × Json}
    {members : List (String × Json)} (done : List (String × Json)) {expected : Expected}
    (he : expected = .firstName ∨ expected = .name)
    (h : ∀ i ∈ m :: members, ∀ done, Reads i.2 (.member done i.1 :: stack)) (rest : List Token) :
    (memberTokens (m :: members) ++ .rightBrace :: rest).foldlM step
        ⟨.members done :: stack, expected⟩ =
      (put stack (.object (distinct (done.reverse ++ m :: members)))).bind
        fun r => rest.foldlM step r := by
  have hvalue := h m List.mem_cons_self done
  have hname : step ⟨.members done :: stack, expected⟩ (.string m.1) =
      some ⟨.members done :: stack, .colon m.1⟩ := by
    rcases he with rfl | rfl <;> rfl
  have hcolon : step ⟨.members done :: stack, .colon m.1⟩ .colon =
      some ⟨.member done m.1 :: stack, .value⟩ := rfl
  induction members generalizing m done expected with
  | nil =>
    have hclose : step ⟨.members (m :: done) :: stack, .separator⟩ .rightBrace =
        put stack (.object (distinct (done.reverse ++ [m]))) := by
      rw [← List.reverse_cons]
      rfl
    rw [memberTokens, List.cons_append, List.cons_append, foldlM_step hname, foldlM_step hcolon,
      hvalue, put, Option.bind_some, List.foldlM_cons, hclose]
    rfl
  | cons k members ih =>
    have hcomma : step ⟨.members (m :: done) :: stack, .separator⟩ .comma =
        some ⟨.members (m :: done) :: stack, .name⟩ := rfl
    have hrest := ih (m :: done) (.inr rfl) (fun i hi => h i (List.mem_cons_of_mem m hi))
      (h k (by simp) _) rfl rfl
    rw [memberTokens_cons, List.append_assoc, List.cons_append, List.cons_append,
      List.cons_append, foldlM_step hname, foldlM_step hcolon, hvalue, put, Option.bind_some,
      foldlM_step hcomma, hrest, List.reverse_cons, List.append_assoc]
    rfl

/-- No value starts with a closing bracket, so a first item is read as any other. -/
theorem foldlM_firstItem (i : Json) (items : List Json) (rest : List Token) :
    (itemTokens (i :: items) ++ rest).foldlM step ⟨stack, .firstItem⟩ =
      (itemTokens (i :: items) ++ rest).foldlM step ⟨stack, .value⟩ := by
  have hvalue (j : Json) (ts : List Token) : (j.tokens ++ ts).foldlM step ⟨stack, .firstItem⟩ =
      (j.tokens ++ ts).foldlM step ⟨stack, .value⟩ := by
    cases j <;> rfl
  cases items with
  | nil => exact hvalue i rest
  | cons k items =>
    rw [itemTokens_cons, List.append_assoc]
    exact hvalue i _

theorem reads {n : Nat} {j : Json} (h : Tidy n j) (hn : stack.length + n ≤ maxDepth) :
    Reads j stack := by
  induction h generalizing stack with
  | null | bool | number | string => exact fun rest => rfl
  | @array n items _ ih =>
    intro rest
    have hlt : stack.length < maxDepth := by omega
    have hdepth (frame : Frame) : (frame :: stack).length + n ≤ maxDepth := by
      rw [List.length_cons]
      omega
    have hopen : step ⟨stack, .value⟩ .leftBracket = some ⟨.items [] :: stack, .firstItem⟩ :=
      if_pos hlt
    rw [tokens, List.append_assoc, List.cons_append, foldlM_step hopen]
    cases items with
    | nil => rfl
    | cons i items =>
      have hread := reads_items stack [] (fun j hj done => ih j hj (hdepth _)) rest
      rw [foldlM_firstItem]
      exact hread
  | @object n members _ hd ih =>
    intro rest
    have hlt : stack.length < maxDepth := by omega
    have hdepth (frame : Frame) : (frame :: stack).length + n ≤ maxDepth := by
      rw [List.length_cons]
      omega
    have hopen : step ⟨stack, .value⟩ .leftBrace = some ⟨.members [] :: stack, .firstName⟩ :=
      if_pos hlt
    rw [tokens, List.append_assoc, List.cons_append, foldlM_step hopen]
    cases members with
    | nil => rfl
    | cons m members =>
      have hread := reads_members stack [] (.inl rfl)
        (fun i hi done => ih i hi (hdepth _)) rest
      rw [List.reverse_nil, List.nil_append, distinct_eq hd] at hread
      exact hread

end Reader

/-- A tidy value is read back from its text. -/
theorem ofText?_text {n : Nat} {j : Json} (h : Tidy n j) (hn : n ≤ Reader.maxDepth) :
    ofText? j.text = some j := by
  have hlegible := h.legible
  have hreads : j.tokens.foldlM Reader.step Reader.start = some ⟨[], .nothing j⟩ := by
    have hread := Reader.reads h (show [].length + n ≤ Reader.maxDepth by simpa using hn) []
    rw [List.append_nil] at hread
    exact hread
  rw [ofText?, text, chars, String.toList_ofList,
    Token.ofText?_flatMap hlegible.tidy hlegible.spaced, Option.bind_some, ofTokens?, hreads]

end Json

end ShaderGraph
