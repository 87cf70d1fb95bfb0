import ShaderGraph.Proofs.Tokens

/-! Text with brackets: what stands outside of all of them, and the pieces into which blanks and
commas cut it there. An operand exposes only names, numbers and points, so it is never cut. -/

namespace ShaderGraph

namespace Text

/-! ### Brackets -/

/-- The brackets to be closed after a character, the innermost first, given those before it. Only
the innermost one can be closed. -/
def bracketsAfter (pending : List Char) (c : Char) : Option (List Char) :=
  if c = '(' then some (')' :: pending)
  else if c = '[' then some (']' :: pending)
  else if c = ')' ∨ c = ']' then if pending.head? = some c then some pending.tail else none
  else some pending

/-- Every bracket is closed by one of its kind, and none is closed that was not opened. -/
def Balanced (text : List Char) : Prop := text.foldlM bracketsAfter [] = some []

instance (text : List Char) : Decidable (Balanced text) := inferInstanceAs (Decidable (_ = _))

/-- The characters outside of all brackets, given the brackets to be closed. -/
def exposed : List Char → List Char → List Char
  | _, [] => []
  | pending, c :: cs =>
    match bracketsAfter pending c with
    | some next => if pending = [] ∧ next = [] then c :: exposed next cs else exposed next cs
    | none => c :: exposed pending cs

/-- Letters and digits, underscores and points. -/
def isOperandChar (c : Char) : Bool := c.isAlphanum || c == '_' || c == '.'

/-- Text that stays one operand wherever it is put. -/
structure Operand (text : List Char) : Prop where
  balanced : Balanced text
  exposed : (exposed [] text).all isOperandChar = true
  nonempty : text ≠ []

instance (text : List Char) : Decidable (Operand text) :=
  decidable_of_iff (Balanced text ∧ (Text.exposed [] text).all isOperandChar = true ∧ text ≠ [])
    ⟨fun h => ⟨h.1, h.2.1, h.2.2⟩, fun h => ⟨h.balanced, h.exposed, h.nonempty⟩⟩

variable {a b p q base : List Char} {c : Char}

/-- What is to be closed further out makes no difference. -/
theorem bracketsAfter_append (h : bracketsAfter p c = some q) (base : List Char) :
    bracketsAfter (p ++ base) c = some (q ++ base) := by
  unfold bracketsAfter at h ⊢
  split_ifs at h ⊢ <;> grind

theorem pending_append (h : a.foldlM bracketsAfter p = some q) (base : List Char) :
    a.foldlM bracketsAfter (p ++ base) = some (q ++ base) := by
  induction a generalizing p with
  | nil =>
    cases h
    rfl
  | cons c a ih =>
    rw [List.foldlM_cons] at h ⊢
    obtain ⟨next, hc, ha⟩ := Option.bind_eq_some_iff.mp h
    rw [bracketsAfter_append hc base]
    exact ih ha

theorem exposed_append (h : a.foldlM bracketsAfter p = some q) (b : List Char) :
    exposed p (a ++ b) = exposed p a ++ exposed q b := by
  induction a generalizing p with
  | nil =>
    cases h
    rfl
  | cons c a ih =>
    rw [List.foldlM_cons] at h
    obtain ⟨next, hc, ha⟩ := Option.bind_eq_some_iff.mp h
    simp only [List.cons_append, exposed, hc]
    split <;> simp [ih ha]

/-- Within brackets nothing is exposed. -/
theorem exposed_inside (h : a.foldlM bracketsAfter p = some q) (hb : base ≠ []) :
    exposed (p ++ base) a = [] := by
  induction a generalizing p with
  | nil => rfl
  | cons c a ih =>
    rw [List.foldlM_cons] at h
    obtain ⟨next, hc, ha⟩ := Option.bind_eq_some_iff.mp h
    simp only [exposed, bracketsAfter_append hc base]
    simpa [hb] using ih ha

theorem Balanced.append (ha : Balanced a) (hb : Balanced b) : Balanced (a ++ b) := by
  unfold Balanced at *
  rw [List.foldlM_append, ha]
  exact hb

/-- The two kinds of brackets. -/
inductive Encloses : Char → Char → Prop
  | round : Encloses '(' ')'
  | square : Encloses '[' ']'

theorem Encloses.opens {l r : Char} (h : Encloses l r) (p : List Char) :
    bracketsAfter p l = some (r :: p) := by
  cases h <;> rfl

theorem Encloses.closes {l r : Char} (h : Encloses l r) (p : List Char) :
    bracketsAfter (r :: p) r = some p := by
  cases h <;> rfl

/-- A balanced text in brackets, seen from outside. -/
theorem Balanced.enclose {l r : Char} (h : Balanced a) (he : Encloses l r) :
    Balanced (l :: a ++ [r]) ∧ exposed [] (l :: a ++ [r]) = [] := by
  have hinside : a.foldlM bracketsAfter [r] = some [r] := pending_append h [r]
  constructor
  · unfold Balanced
    rw [List.cons_append, List.foldlM_cons, he.opens]
    simp [List.foldlM_append, hinside, he.closes]
  · have hnone : exposed [r] a = [] := exposed_inside (p := []) h (by simp)
    simp [exposed, he.opens, exposed_append hinside, hnone, he.closes]

/-! ### Operands -/

/-- Text without brackets. -/
theorem balanced_of_forall (h : ∀ c ∈ a, c ∉ ['(', ')', '[', ']']) :
    Balanced a ∧ exposed [] a = a := by
  induction a with
  | nil => exact ⟨rfl, rfl⟩
  | cons c a ih =>
    obtain ⟨hc, ha⟩ := List.forall_mem_cons.mp h
    have hnext : bracketsAfter [] c = some [] := by simp_all [bracketsAfter]
    obtain ⟨hb, he⟩ := ih ha
    refine ⟨?_, by simp [exposed, hnext, he]⟩
    unfold Balanced at *
    rw [List.foldlM_cons, hnext]
    exact hb

theorem not_bracket_of_isOperandChar (h : isOperandChar c = true) : c ∉ ['(', ')', '[', ']'] := by
  intro hc
  simp only [List.mem_cons, List.not_mem_nil, or_false] at hc
  rcases hc with rfl | rfl | rfl | rfl <;> exact absurd h (by decide)

namespace Operand

/-- A word. -/
theorem word (h : a.all isOperandChar = true) (hne : a ≠ []) : Operand a := by
  have hplain : ∀ c ∈ a, c ∉ ['(', ')', '[', ']'] := fun c hc =>
    not_bracket_of_isOperandChar (List.all_eq_true.mp h c hc)
  obtain ⟨hb, he⟩ := balanced_of_forall hplain
  exact ⟨hb, he.symm ▸ h, hne⟩

theorem append (ha : Operand a) (hb : Operand b) : Operand (a ++ b) := by
  refine ⟨ha.balanced.append hb.balanced, ?_, by simp [ha.nonempty]⟩
  rw [exposed_append ha.balanced, List.all_append, ha.exposed, hb.exposed]
  rfl

/-- Anything in brackets. -/
theorem enclose {l r : Char} (h : Balanced a) (he : Encloses l r) : Operand (l :: a ++ [r]) := by
  obtain ⟨hb, hx⟩ := h.enclose he
  exact ⟨hb, by rw [hx]; rfl, by simp⟩

/-- A name and anything in brackets after it. -/
theorem call {l r : Char} (ha : Operand a) (hb : Balanced b) (he : Encloses l r) :
    Operand (a ++ l :: b ++ [r]) := by
  rw [List.append_assoc]
  exact ha.append (enclose hb he)

end Operand

theorem isOperandChar_of_isDigit (h : c.isDigit = true) : isOperandChar c = true := by
  simp [isOperandChar, Char.isAlphanum, h]

theorem all_toDigits (n : Nat) : (Nat.toDigits 10 n).all isOperandChar = true :=
  List.all_eq_true.mpr fun _ hc => isOperandChar_of_isDigit (Local.isDigit_of_mem_digits hc)

theorem operand_toDigits (n : Nat) : Operand (Nat.toDigits 10 n) :=
  .word (all_toDigits n) Nat.toDigits_ne_nil

/-- An operand after a minus sign at most. -/
inductive Signed : List Char → Prop
  | plain {text} (h : Operand text) : Signed text
  | minus {text} (h : Operand text) : Signed ('-' :: text)

theorem Signed.balanced (h : Signed a) : Balanced a := by
  cases h with
  | plain h => exact h.balanced
  | minus h => exact Balanced.append (a := ['-']) (by decide) h.balanced

/-! ### Pieces -/

def isSeparator (c : Char) : Bool := c == ' ' || c == ','

theorem bracketsAfter_separator (h : isSeparator c = true) (p : List Char) :
    bracketsAfter p c = some p := by
  have hc : c = ' ' ∨ c = ',' := by simpa [isSeparator] using h
  rcases hc with rfl | rfl <;> rfl

theorem not_isSeparator_of_isOperandChar (h : isOperandChar c = true) : isSeparator c = false := by
  have hc : c ≠ ' ' ∧ c ≠ ',' := by
    constructor <;> rintro rfl <;> exact absurd h (by decide)
  simp [isSeparator, hc]

/-- The text cut at the blanks and commas outside of all brackets, given the brackets to be
closed. -/
def cut : List Char → List Char → List (List Char)
  | _, [] => [[]]
  | pending, c :: cs =>
    let rest := cut ((bracketsAfter pending c).getD pending) cs
    if pending = [] ∧ isSeparator c = true then [] :: rest else rest.modifyHead (c :: ·)

/-- What blanks and commas separate, outside of all brackets. -/
def pieces (text : List Char) : List (List Char) := (cut [] text).filter (· ≠ [])

/-- Nothing is cut within a balanced text that exposes no separator. -/
theorem cut_append (h : a.foldlM bracketsAfter p = some q)
    (hx : (exposed p a).all (fun c => !isSeparator c) = true) (b : List Char) :
    cut p (a ++ b) = (cut q b).modifyHead (a ++ ·) := by
  induction a generalizing p with
  | nil =>
    cases h
    exact (congrFun List.modifyHead_id _).symm
  | cons c a ih =>
    rw [List.foldlM_cons] at h
    obtain ⟨next, hc, ha⟩ := Option.bind_eq_some_iff.mp h
    have hrest : (exposed next a).all (fun c => !isSeparator c) = true := by
      simp only [exposed, hc] at hx
      split at hx
      · exact (Bool.and_eq_true_iff.mp hx).2
      · exact hx
    have hcut : ¬(p = [] ∧ isSeparator c = true) := by
      rintro ⟨rfl, hsep⟩
      obtain rfl : [] = next := by simpa [bracketsAfter_separator hsep] using hc
      simp [exposed, hc, hsep] at hx
    simp only [List.cons_append, cut, hc, Option.getD_some, if_neg hcut, ih ha hrest,
      List.modifyHead_modifyHead]
    rfl

/-- Text that is one piece. -/
structure Unbroken (text : List Char) : Prop where
  balanced : Balanced text
  exposed : (exposed [] text).all (fun c => !isSeparator c) = true
  nonempty : text ≠ []

namespace Unbroken

theorem pieces_self (h : Unbroken a) : pieces a = [a] := by
  have hcut := cut_append h.balanced h.exposed []
  rw [List.append_nil] at hcut
  simp [pieces, hcut, cut, h.nonempty]

/-- A separator cuts off what stands before it. -/
theorem pieces_cons (h : Unbroken a) (hs : isSeparator c = true) (b : List Char) :
    pieces (a ++ c :: b) = a :: pieces b := by
  simp [pieces, cut_append h.balanced h.exposed, cut, hs, bracketsAfter_separator hs, h.nonempty]

end Unbroken

theorem Operand.unbroken (h : Operand a) : Unbroken a := by
  refine ⟨h.balanced, List.all_eq_true.mpr fun c hc => ?_, h.nonempty⟩
  rw [not_isSeparator_of_isOperandChar (List.all_eq_true.mp h.exposed c hc)]
  rfl

theorem Signed.unbroken (h : Signed a) : Unbroken a := by
  cases h with
  | plain h => exact h.unbroken
  | minus h => exact ⟨(Signed.minus h).balanced, h.unbroken.exposed, by simp⟩

theorem pieces_separator (hs : isSeparator c = true) (b : List Char) :
    pieces (c :: b) = pieces b := by
  simp [pieces, cut, hs, bracketsAfter_separator hs]

end Text

end ShaderGraph
