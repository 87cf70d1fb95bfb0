import ShaderGraph.Proofs.Brackets
import ShaderGraph.Proofs.Expressions
import ShaderGraph.Proofs.Scope

/-! Lexemes of text that is put together from pieces, and of text that is one operand. Brackets and
commas end whatever lexeme stands before them, and so does the point of a member access. An operand
has no operator outside of its brackets, so it is a chain of calls, indices and member accesses, or
a cast of an operand. -/

namespace ShaderGraph

/-! ### Text put together from pieces -/

namespace Lexeme

variable {p : Pending} {a b : List Char} {c : Char} {ls ms : List Lexeme}

/-- Characters that no name, number or operator goes on with, the point of a number apart. -/
def isBoundary (c : Char) : Bool := isMark c || isBlank c

theorem isBoundary_cases (hc : isBoundary c = true) :
    c ∈ ['(', ')', '[', ']', ',', '.', ' ', '\t', '\n', '\r'] := by
  simpa [isBoundary, isMark, isBlank, or_assoc] using hc

/-- No operator begins or ends with a boundary. -/
theorem boundary_not_mem_operators (hc : isBoundary c = true) (cs : List Char) :
    cs ++ [c] ∉ operators ∧ c :: cs ∉ operators := by
  have hheads : operators.all (·.head?.all (!isBoundary ·)) = true := by decide
  have hlasts : operators.all (·.getLast?.all (!isBoundary ·)) = true := by decide
  constructor
  · intro h
    have hlast := List.all_eq_true.mp hlasts _ h
    simp [hc] at hlast
  · intro h
    have hhead := List.all_eq_true.mp hheads _ h
    simp [hc] at hhead

namespace Pending

theorem extend?_boundary (hc : isBoundary c = true) (p : Pending)
    (hp : c = '.' → ∀ cs, p ≠ .whole cs) : p.extend? c = Option.none := by
  have hplain : isNameChar c = false ∧ c.isDigit = false ∧ isNumberTail c = false ∧ c ≠ '+' ∧
      c ≠ '-' := by
    have hall : ['(', ')', '[', ']', ',', '.', ' ', '\t', '\n', '\r'].all (fun c =>
        !isNameChar c && !c.isDigit && !isNumberTail c && c != '+' && c != '-') = true := by decide
    simpa [and_assoc] using List.all_eq_true.mp hall c (isBoundary_cases hc)
  obtain ⟨hname, hdigit, htail, hplus, hminus⟩ := hplain
  cases p with
  | whole cs =>
    have hdot : c ≠ '.' := fun h => hp h cs rfl
    simp [extend?, continuesNumber, hdot, hname, hplus, hminus]
  | _ =>
    simp [extend?, continuesNumber, hname, hdigit, htail, hplus, hminus,
      (boundary_not_mem_operators hc _).1]

theorem close_mark (hc : isMark c = true) (p : Pending) :
    p.close (some c) = p.close Option.none := by
  have hstart : isNameStart c = false := by
    have hall : ['(', ')', '[', ']', ',', '.'].all (!isNameStart ·) = true := by decide
    simpa using List.all_eq_true.mp hall c (List.contains_iff_mem.mp hc)
  cases p <;> simp [close, hstart]

theorem start?_mark (hc : isMark c = true) : start? c = some (.symbol [c]) := by
  have hall : ['(', ')', '[', ']', ',', '.'].all (fun c =>
      start? c == some (.symbol [c])) = true := by decide
  simpa using List.all_eq_true.mp hall c (List.contains_iff_mem.mp hc)

end Pending

theorem isBoundary_of_isMark (hc : isMark c = true) : isBoundary c = true := by
  simp [isBoundary, hc]

/-- The text is read on its own, whatever lexeme is under way before it. -/
def Follows (b : List Char) (ms : List Lexeme) : Prop :=
  ∀ p : Pending, readFrom p b = some (p.close none ++ ms)

theorem readFrom_append (ha : readFrom p a = some ls) (hb : Follows b ms) :
    readFrom p (a ++ b) = some (ls ++ ms) := by
  induction a generalizing p ls with
  | nil =>
    obtain rfl := Option.some.inj ha
    exact hb p
  | cons c a ih =>
    rw [List.cons_append]
    unfold readFrom at ha ⊢
    cases hx : p.extend? c with
    | some q =>
      simp only [hx] at ha ⊢
      exact ih ha
    | none =>
      simp only [hx, Option.bind_eq_some_iff, Option.map_eq_some_iff] at ha ⊢
      obtain ⟨q, hq, ks, hks, rfl⟩ := ha
      exact ⟨q, hq, ks ++ ms, ih hks, (List.append_assoc ..).symm⟩

/-- After a bracket or a comma the reading starts afresh. -/
theorem readFrom_mark (hc : isMark c = true) (hdot : c ≠ '.') (hb : readFrom .none b = some ms) :
    readFrom (.symbol [c]) b = some (.symbol (.ofList [c]) :: ms) := by
  cases b with
  | nil =>
    obtain rfl := Option.some.inj hb
    rfl
  | cons d b =>
    have hextend : (Pending.symbol [c]).extend? d = none := by
      simp [Pending.extend?, hdot, (boundary_not_mem_operators (isBoundary_of_isMark hc) [d]).2]
    unfold readFrom at hb ⊢
    rw [hextend]
    simp only [Pending.extend?, Option.bind_eq_some_iff, Option.map_eq_some_iff] at hb ⊢
    obtain ⟨q, hq, ks, hks, rfl⟩ := hb
    exact ⟨q, hq, ks, hks, rfl⟩

theorem readFrom_nil : readFrom .none [] = some [] := rfl

namespace Follows

theorem nil : Follows [] [] := fun p => by simp [readFrom]

theorem mark (hc : isMark c = true) (hdot : c ≠ '.') (hb : readFrom .none b = some ms) :
    Follows (c :: b) (.symbol (.ofList [c]) :: ms) := by
  intro p
  have hextend := Pending.extend?_boundary (isBoundary_of_isMark hc) p fun h => absurd h hdot
  unfold readFrom
  rw [hextend, Pending.start?_mark hc, Pending.close_mark hc]
  simp [readFrom_mark hc hdot hb]

/-- A name goes on up to the next bracket or comma. -/
theorem name (cs : List Char) {fs : List Char} (hf : fs.all isNameChar = true)
    (hb : Follows b ms) :
    readFrom (.name cs) (fs ++ b) = some (.name (.ofList (cs ++ fs)) :: ms) := by
  induction fs generalizing cs with
  | nil => simpa [Pending.close] using hb (.name cs)
  | cons c fs ih =>
    rw [List.all_cons, Bool.and_eq_true] at hf
    rw [List.cons_append]
    unfold readFrom
    simp only [Pending.extend?, hf.1, if_true]
    simpa using ih (cs ++ [c]) hf.2

/-- A member access to components, after a number too. -/
theorem swizzle {fs : List Char} (hf : fs.all isNameChar = true) (hb : Follows b ms) :
    Follows ('.' :: 'x' :: fs ++ b) (.symbol "." :: .name (.ofList ('x' :: fs)) :: ms) := by
  intro p
  have hname : readFrom (.name ['x']) (fs ++ b) = some (.name (.ofList ('x' :: fs)) :: ms) :=
    name ['x'] hf hb
  have hpoint : readFrom (.symbol ['.']) ('x' :: (fs ++ b)) =
      some (.symbol "." :: .name (.ofList ('x' :: fs)) :: ms) := by
    unfold readFrom
    rw [show (Pending.symbol ['.']).extend? 'x' = none by decide,
      show Pending.start? 'x' = some (.name ['x']) by decide]
    simp [hname, Pending.close]
  rw [List.cons_append, List.cons_append]
  by_cases hp : ∃ cs, p = .whole cs
  · -- the point is first taken for that of the number
    obtain ⟨cs, rfl⟩ := hp
    unfold readFrom
    simp only [Pending.extend?, if_true]
    unfold readFrom
    rw [show (Pending.point cs).extend? 'x' = none by rfl,
      show Pending.start? 'x' = some (.name ['x']) by decide]
    simp [hname, Pending.close, show isNameStart 'x' = true by decide]
  · have hextend := Pending.extend?_boundary (c := '.') rfl p fun _ cs h => hp ⟨cs, h⟩
    unfold readFrom
    rw [hextend, Pending.start?_mark rfl, Pending.close_mark rfl]
    simp [hpoint]

end Follows

/-- A text, and another one in parentheses after it. -/
theorem readFrom_call (ha : readFrom .none a = some ls) (hb : readFrom .none b = some ms) :
    readFrom .none (a ++ '(' :: b ++ [')']) = some (ls ++ .symbol "(" :: ms ++ [.symbol ")"]) := by
  have hclosed := readFrom_append hb (.mark (c := ')') rfl (by decide) readFrom_nil)
  have hcall := readFrom_append ha (Follows.mark (c := '(') rfl (by decide) hclosed)
  simpa using hcall

/-! ### Blanks -/

def chars : Lexeme → List Char
  | name s | number s | symbol s => s.toList

namespace Pending

def chars : Pending → List Char
  | none => []
  | name cs | whole cs | fraction cs | symbol cs => cs
  | point cs => cs ++ ['.']

theorem chars_close (p : Pending) (next : Option Char) :
    (p.close next).flatMap Lexeme.chars = p.chars := by
  cases p with
  | point cs =>
    simp only [close]
    split <;> simp [Lexeme.chars, chars]
  | _ => simp [close, Lexeme.chars, chars]

theorem chars_start? {q : Pending} (h : start? c = some q) :
    q.chars = [c].filter fun c => !isBlank c := by
  unfold start? at h
  split_ifs at h with hblank hname hdigit hsymbol <;> cases h <;> simp [chars, hblank]

theorem chars_extend? {q : Pending} (h : p.extend? c = some q) :
    q.chars = p.chars ++ [c] ∧ isBlank c = false := by
  constructor
  · cases p <;> simp only [extend?, Option.ite_none_right_eq_some] at h <;> grind [chars]
  · by_contra hc
    have hboundary : isBoundary c = true := by simp_all [isBoundary]
    have hdot : c ≠ '.' := by
      rintro rfl
      exact hc rfl
    rw [extend?_boundary hboundary p fun h => absurd h hdot] at h
    cases h

end Pending

/-- The lexemes are the text without its blanks. -/
theorem chars_readFrom (h : readFrom p a = some ls) :
    ls.flatMap chars = p.chars ++ a.filter (fun c => !isBlank c) := by
  induction a generalizing p ls with
  | nil =>
    obtain rfl := Option.some.inj h
    simp [Pending.chars_close]
  | cons c a ih =>
    unfold readFrom at h
    cases hx : p.extend? c with
    | some q =>
      simp only [hx] at h
      obtain ⟨hchars, hblank⟩ := Pending.chars_extend? hx
      simp [ih h, hchars, hblank]
    | none =>
      simp only [hx, Option.bind_eq_some_iff, Option.map_eq_some_iff] at h
      obtain ⟨q, hq, ks, hks, rfl⟩ := h
      rw [List.flatMap_append, Pending.chars_close, ih hks, Pending.chars_start? hq,
        ← List.filter_append]
      rfl

end Lexeme

/-! ### Operands -/

namespace Code

variable {depth : Int} {a : List Char} {c : Char} {rest : Code Local}

/-- The text as code. -/
def ofChars (a : List Char) : Code Local := a.map .char

def isBracket (c : Char) : Bool := ['(', ')', '[', ']'].contains c

theorem isOperandFrom_char (hc : isBracket c = false) :
    isOperandFrom depth (.char c :: rest) =
      ((if 0 < depth then c != '\n' else isWordChar c) && isOperandFrom depth rest) := by
  simp only [isBracket, List.contains_cons, Bool.or_eq_false_iff] at hc
  simp only [isOperandFrom, hc.1, hc.2.1, hc.2.2.1, hc.2.2.2.1, Bool.or_self, Bool.false_eq_true,
    if_false]

/-- If code is one operand, so is what comes after the text in it, at the same depth. -/
def Passes (a : List Char) : Prop :=
  ∀ depth rest, isOperandFrom depth (ofChars a ++ rest) = true → isOperandFrom depth rest = true

namespace Passes

theorem plain (ha : a.all (!isBracket ·) = true) : Passes a := by
  intro depth rest h
  induction a with
  | nil => exact h
  | cons c a ih =>
    simp only [List.all_cons, Bool.and_eq_true, Bool.not_eq_true'] at ha
    rw [ofChars, List.map_cons, List.cons_append, isOperandFrom_char ha.1, Bool.and_eq_true] at h
    exact ih ha.2 h.2

theorem append {b : List Char} (ha : Passes a) (hb : Passes b) : Passes (a ++ b) := by
  intro depth rest h
  rw [ofChars, List.map_append, List.append_assoc] at h
  exact hb _ _ (ha _ _ h)

theorem enclose {l r : Char} (ha : Passes a) (hlr : Text.Encloses l r) :
    Passes (l :: a ++ [r]) := by
  intro depth rest h
  have hinside : isOperandFrom (depth + 1) (ofChars a ++ .char r :: rest) = true := by
    cases hlr <;> simpa [ofChars, isOperandFrom] using h
  have hclosed := ha _ _ hinside
  cases hlr <;> simpa [isOperandFrom] using hclosed

end Passes

/-- Without its blanks, an operand is still one. -/
theorem isOperandFrom_filter (h : isOperandFrom depth (ofChars a) = true) :
    isOperandFrom depth (ofChars (a.filter fun c => !Lexeme.isBlank c)) = true := by
  induction a generalizing depth with
  | nil => rfl
  | cons c a ih =>
    have hcons {depth : Int} (h : isOperandFrom depth (.char c :: ofChars a) = true) :
        isOperandFrom depth (.char c :: ofChars (a.filter fun c => !Lexeme.isBlank c)) = true := by
      simp only [isOperandFrom] at h ⊢
      split_ifs at h ⊢ <;> simp_all
    rw [List.filter_cons]
    split
    · exact hcons h
    · next hblank =>
      have hc : [c].all (!isBracket ·) = true := by
        have hcs : Lexeme.isBlank c = true := by simpa using hblank
        simp only [Lexeme.isBlank, Bool.or_eq_true, beq_iff_eq, or_assoc] at hcs
        rcases hcs with rfl | rfl | rfl | rfl <;> decide
      exact ih (Passes.plain hc _ _ h)

theorem toNat_lt_of_isAlphanum (h : c.isAlphanum = true) : c.toNat < 0x80 := by
  have hcases : c.isUpper = true ∨ c.isLower = true ∨ c.isDigit = true := by
    rcases Bool.or_eq_true_iff.mp h with h | h
    · exact (Bool.or_eq_true_iff.mp h).imp_right .inl
    · exact .inr (.inr h)
  have hle : c.val ≤ 'z'.val := by
    rcases hcases with h | h | h
    · have hlast : c.val ≤ 'Z'.val := (of_decide_eq_true h).2
      exact UInt32.le_trans hlast (by decide)
    · exact of_decide_eq_true (Bool.and_eq_true_iff.mp h).2
    · have hlast : c.val ≤ '9'.val := of_decide_eq_true (Bool.and_eq_true_iff.mp h).2
      exact UInt32.le_trans hlast (by decide)
  exact lt_of_le_of_lt (UInt32.le_iff_toNat_le.mp hle) (by decide)

theorem isWordChar_of_isOperandChar (hc : Text.isOperandChar c = true) :
    isWordChar c = true := by
  simp only [Text.isOperandChar, isWordChar, Text.isAlphanumeric, Bool.or_eq_true] at hc ⊢
  refine hc.imp_left (Or.imp_left fun h => ?_)
  rw [if_pos (toNat_lt_of_isAlphanum h)]
  exact h

theorem isOperandFrom_word (ha : a.all Text.isOperandChar = true) :
    isOperandFrom depth (ofChars a ++ rest) = isOperandFrom depth rest := by
  induction a with
  | nil => rfl
  | cons c a ih =>
    rw [List.all_cons, Bool.and_eq_true] at ha
    have hbracket : isBracket c = false := by
      have hmem := Text.not_bracket_of_isOperandChar ha.1
      simpa [isBracket] using hmem
    have hword := isWordChar_of_isOperandChar ha.1
    have hbreak : c ≠ '\n' := by
      rintro rfl
      exact absurd ha.1 (by decide)
    have hkept : (if 0 < depth then c != '\n' else isWordChar c) = true := by
      split <;> simp [hword, hbreak]
    rw [ofChars, List.map_cons, List.cons_append, isOperandFrom_char hbracket, hkept, Bool.true_and]
    exact ih ha.2

/-- References are seen as the names they are written with. -/
theorem isOperandFrom_source (depth : Int) (code : Code Local) :
    isOperandFrom depth (ofChars code.source.toList) = isOperandFrom depth code := by
  rw [toList_source]
  induction code generalizing depth with
  | nil => rfl
  | cons x code ih =>
    rw [List.flatMap_cons, ofChars, List.map_append]
    cases x with
    | char c =>
      have hrest (depth : Int) :
          isOperandFrom depth ((code.flatMap Atom.chars).map .char) = isOperandFrom depth code :=
        ih depth
      simp only [Atom.chars, List.map_cons, List.map_nil, List.cons_append, List.nil_append,
        isOperandFrom, hrest]
    | ref r =>
      have hname : (Local.name r).toList.all Text.isOperandChar = true := by
        rw [Local.name_toList, List.all_append, Text.all_toDigits]
        rfl
      exact (isOperandFrom_word hname).trans (ih depth)

end Code

namespace Expr

open Code Lexeme

variable {e : Expr} {depth : Int} {rest : Code Local}

/-- The text of the expression without blanks. -/
def chars (e : Expr) : List Char := e.lexemes.flatMap Lexeme.chars

theorem all_not_isBracket {s : String} (h : isNumber s = true) :
    s.toList.all (!isBracket ·) = true := by
  refine List.all_eq_true.mpr fun c hc => ?_
  have hchar := List.all_eq_true.mp h c hc
  simp only [Bool.not_eq_true']
  by_contra hb
  have hcs : c ∈ ['(', ')', '[', ']'] := List.contains_iff_mem.mp (Bool.of_not_eq_false hb)
  have hall : ['(', ')', '[', ']'].all (fun c =>
      !(isNameChar c || c == '.' || c == '+' || c == '-')) = true := by decide
  have hother := List.all_eq_true.mp hall c hcs
  rw [hchar] at hother
  cases hother

theorem isNumber_of_isIdentifier {s : String} (h : isIdentifier s = true) : isNumber s = true := by
  refine List.all_eq_true.mpr fun c hc => ?_
  simp [List.all_eq_true.mp h c hc]

theorem isIdentifier_of_isTypeName {s : String} (h : isTypeName s = true) :
    isIdentifier s = true := by
  have hall : ∀ s ∈ typeNames, isIdentifier s = true := by decide +kernel
  exact hall s (List.contains_iff_mem.mp h)

theorem mem_of_precedence? {op : String} {q : Nat} (h : precedence? op = some q) :
    op ∈ binaryOperators.flatten := by
  obtain ⟨hq, hop, -⟩ := List.findIdx?_eq_some_iff_getElem.mp h
  exact List.mem_flatten.mpr ⟨_, List.getElem_mem hq, List.contains_iff_mem.mp hop⟩

/-- Operators are not part of an operand. -/
theorem operator_exposed {op : String} (hop : op ∈ prefixOperators ++ binaryOperators.flatten) :
    op.toList.all (!isBracket ·) = true ∧
      ∀ rest : Code Local, isOperandFrom 0 (ofChars op.toList ++ rest) = false := by
  have hall : ∀ op ∈ prefixOperators ++ binaryOperators.flatten,
      op.toList.all (!isBracket ·) = true ∧ op.toList.head?.any (!isWordChar ·) = true := by
    decide +kernel
  obtain ⟨hplain, hhead⟩ := hall op hop
  refine ⟨hplain, fun rest => ?_⟩
  obtain ⟨c, hc, hword⟩ := (Option.any_eq_true _ _).mp hhead
  rw [Bool.not_eq_true'] at hword
  obtain ⟨cs, hcs⟩ := List.head?_eq_some_iff.mp hc
  rw [hcs] at hplain ⊢
  simp only [List.all_cons, Bool.and_eq_true, Bool.not_eq_true'] at hplain
  rw [ofChars, List.map_cons, List.cons_append, isOperandFrom_char hplain.1]
  simp [hword]

/-- The brackets of an expression are balanced. -/
theorem passes_chars (he : e.isWellFormed = true) : Passes e.chars := by
  have hword {s : String} (h : isNumber s = true) : Passes s.toList := .plain (all_not_isBracket h)
  have hname {s : String} (h : isIdentifier s = true) : Passes s.toList :=
    hword (isNumber_of_isIdentifier h)
  have htype {s : String} (h : isTypeName s = true) : Passes s.toList :=
    hname (isIdentifier_of_isTypeName h)
  induction e with
  | name s =>
    simp only [isWellFormed, Bool.and_eq_true] at he
    simpa [chars, lexemes, Lexeme.chars] using hname he.1
  | number s => simpa [chars, lexemes, Lexeme.chars] using hword he
  | paren e ih =>
    have h := (ih he).enclose .round
    simpa [chars, lexemes, Lexeme.chars] using h
  | member e field ih =>
    simp only [isWellFormed, Bool.and_eq_true] at he
    have h := ((ih he.1.1).append (.plain (a := ['.']) (by decide))).append (hname he.2)
    simpa [chars, lexemes, Lexeme.chars] using h
  | index e i ih ihi =>
    simp only [isWellFormed, Bool.and_eq_true] at he
    have h := (ih he.1.1).append ((ihi he.2).enclose .square)
    simpa [chars, lexemes, Lexeme.chars] using h
  | invoke f ih =>
    simp only [isWellFormed, Bool.and_eq_true] at he
    have h := (ih he.1).append (Passes.enclose (a := []) (.plain rfl) .round)
    simpa [chars, lexemes, Lexeme.chars] using h
  | call f args ih iha =>
    simp only [isWellFormed, Bool.and_eq_true] at he
    have h := (ih he.1.1).append ((iha he.2).enclose .round)
    simpa [chars, lexemes, Lexeme.chars] using h
  | construct type args ih =>
    simp only [isWellFormed, Bool.and_eq_true] at he
    have h := (htype he.1).append ((ih he.2).enclose .round)
    simpa [chars, lexemes, Lexeme.chars] using h
  | cast type e ih =>
    simp only [isWellFormed, Bool.and_eq_true] at he
    have h := ((htype he.1.1).enclose .round).append (ih he.1.2)
    simpa [chars, lexemes, Lexeme.chars] using h
  | unary op e ih =>
    simp only [isWellFormed, Bool.and_eq_true] at he
    have hop := operator_exposed (List.mem_append_left _ (List.contains_iff_mem.mp he.1.1))
    have h := Passes.append (.plain hop.1) (ih he.1.2)
    simpa [chars, lexemes, Lexeme.chars] using h
  | binary op l r ihl ihr =>
    obtain ⟨q, hq, -, -, hl, hr⟩ := isWellFormed_binary.mp he
    have hop := operator_exposed (List.mem_append_right _ (mem_of_precedence? hq))
    have h := (ihl hl).append (Passes.append (.plain hop.1) (ihr hr))
    simpa [chars, lexemes, Lexeme.chars] using h

/-- An operand is a chain of calls, indices and member accesses, or a cast of an operand. -/
theorem rank_of_isOperandFrom (he : e.isWellFormed = true)
    (h : isOperandFrom 0 (ofChars e.chars) = true) :
    e.rank = postfixRank ∨
      ∃ type a, e = cast type a ∧ isOperandFrom 0 (ofChars a.chars) = true := by
  cases e with
  | cast type a =>
    simp only [isWellFormed, Bool.and_eq_true] at he
    have htype : Passes ('(' :: type.toList ++ [')']) := by
      refine .enclose (.plain ?_) .round
      exact all_not_isBracket (isNumber_of_isIdentifier (isIdentifier_of_isTypeName he.1.1))
    refine .inr ⟨type, a, rfl, htype 0 _ ?_⟩
    simpa [ofChars, chars, lexemes, Lexeme.chars] using h
  | unary op a =>
    simp only [isWellFormed, Bool.and_eq_true] at he
    have hop := operator_exposed (List.mem_append_left _ (List.contains_iff_mem.mp he.1.1))
    have hfalse := hop.2 (ofChars a.chars)
    simp [ofChars, chars, lexemes, Lexeme.chars] at h hfalse
    simp [h] at hfalse
  | binary op l r =>
    obtain ⟨q, hq, -, -, hl, -⟩ := isWellFormed_binary.mp he
    have hop := operator_exposed (List.mem_append_right _ (mem_of_precedence? hq))
    have hrest := passes_chars hl 0 (ofChars op.toList ++ ofChars r.chars)
      (by simpa [ofChars, chars, lexemes, Lexeme.chars] using h)
    rw [hop.2] at hrest
    cases hrest
  | _ => exact .inl rfl

end Expr

end ShaderGraph
