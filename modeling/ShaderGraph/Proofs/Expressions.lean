import Mathlib.Tactic

/-! Expressions of the shading language, and how text is read as one of them. The text is cut into
lexemes; calls, indices and member accesses bind tighter than casts and prefix operators, and these
tighter than binary operators, of which the comma between arguments is the weakest. No text can be
read in two ways: a stack of open frames finds the expression from its lexemes, one by one. -/

namespace ShaderGraph

/-! ### Lexemes -/

inductive Lexeme where
  | name (s : String)
  | number (s : String)
  | symbol (s : String)
  deriving DecidableEq

namespace Lexeme

def isBlank (c : Char) : Bool := c == ' ' || c == '\t' || c == '\n' || c == '\r'

def isNameStart (c : Char) : Bool := c.isAlpha || c == '_'

def isNameChar (c : Char) : Bool := c.isAlphanum || c == '_'

/-- Characters that are a symbol of their own wherever they stand. -/
def isMark (c : Char) : Bool := ['(', ')', '[', ']', ',', '.'].contains c

/-- The operators, those included that no expression has. -/
def operators : List (List Char) :=
  ["+", "-", "*", "/", "%", "<", ">", "=", "!", "~", "&", "|", "^", "<<", ">>", "<=", ">=", "==",
    "!=", "&&", "||", "++", "--", "->", "+=", "-=", "*=", "/=", "%=", "&=", "|=", "^=", "<<=",
    ">>=", "//", "/*"].map String.toList

/-- Whether a number goes on: with a letter or a digit, or with the sign of its exponent. -/
def continuesNumber (cs : List Char) (c : Char) : Bool :=
  isNameChar c || ((c == '+' || c == '-') && (cs.getLast? == some 'e' || cs.getLast? == some 'E'))

/-- The exponents and suffixes that may follow the point of a number. Any other letter there is the
beginning of a member. -/
def isNumberTail (c : Char) : Bool := ['e', 'E', 'f', 'F', 'h', 'H', 'l', 'L'].contains c

/-- The lexeme under way. -/
inductive Pending where
  | none
  | name (cs : List Char)
  /-- A number without a point. -/
  | whole (cs : List Char)
  /-- A number without a point, and a point after it. -/
  | point (cs : List Char)
  | fraction (cs : List Char)
  | symbol (cs : List Char)
  deriving DecidableEq

namespace Pending

/-- A character that begins a lexeme, or a blank. -/
def start? (c : Char) : Option Pending :=
  if isBlank c then some .none
  else if isNameStart c then some (.name [c])
  else if c.isDigit then some (.whole [c])
  else if isMark c || operators.contains [c] then some (.symbol [c])
  else Option.none

/-- The lexeme with one more character, if that belongs to it. -/
def extend? : Pending → Char → Option Pending
  | none, _ => Option.none
  | name cs, c => if isNameChar c then some (name (cs ++ [c])) else Option.none
  | whole cs, c =>
    if c = '.' then some (point cs)
    else if continuesNumber cs c then some (whole (cs ++ [c])) else Option.none
  | point cs, c =>
    if c.isDigit || isNumberTail c then some (fraction (cs ++ ['.', c])) else Option.none
  | fraction cs, c => if continuesNumber cs c then some (fraction (cs ++ [c])) else Option.none
  | symbol cs, c =>
    if cs = ['.'] ∧ c.isDigit then some (fraction ['.', c])
    else if operators.contains (cs ++ [c]) then some (symbol (cs ++ [c])) else Option.none

/-- The lexeme is complete, given the next character. A point between a number and a name accesses a
member. -/
def close : Pending → Option Char → List Lexeme
  | none, _ => []
  | name cs, _ => [.name (.ofList cs)]
  | whole cs, _ | fraction cs, _ => [.number (.ofList cs)]
  | point cs, next =>
    if next.any isNameStart then [.number (.ofList cs), .symbol "."]
    else [.number (.ofList (cs ++ ['.']))]
  | symbol cs, _ => [.symbol (.ofList cs)]

end Pending

def readFrom : Pending → List Char → Option (List Lexeme)
  | p, [] => some (p.close none)
  | p, c :: cs =>
    match p.extend? c with
    | some q => readFrom q cs
    | none => (Pending.start? c).bind fun q => (readFrom q cs).map (p.close (some c) ++ ·)

/-- The lexemes of a text. -/
def read (text : String) : Option (List Lexeme) := readFrom .none text.toList

end Lexeme

/-! ### Expressions -/

inductive Expr where
  | name (s : String)
  | number (s : String)
  | paren (e : Expr)
  | member (e : Expr) (field : String)
  | index (e i : Expr)
  /-- A call without arguments. -/
  | invoke (f : Expr)
  /-- A call whose arguments are separated by commas. -/
  | call (f args : Expr)
  | construct (type : String) (args : Expr)
  | cast (type : String) (e : Expr)
  | unary (op : String) (e : Expr)
  | binary (op : String) (l r : Expr)
  deriving DecidableEq

namespace Expr

/-- The names of scalars, vectors and matrices, and of textures. -/
def typeNames : List String :=
  let scalars := ["bool", "int", "uint", "half", "float", "double"]
  let sizes := ["1", "2", "3", "4"]
  let shapes := "" :: sizes ++ sizes.flatMap fun m => sizes.map fun n => m ++ "x" ++ n
  "Texture2D" :: scalars.flatMap fun s => shapes.map (s ++ ·)

def isTypeName (s : String) : Bool := typeNames.contains s

def isIdentifier (s : String) : Bool := s.toList.all Lexeme.isNameChar

/-- The text of a number has no brackets. -/
def isNumber (s : String) : Bool :=
  s.toList.all fun c => Lexeme.isNameChar c || c == '.' || c == '+' || c == '-'

def prefixOperators : List String := ["-", "+", "!", "~"]

/-- The binary operators by how tight they bind, the weakest first. -/
def binaryOperators : List (List String) :=
  [[","], ["||"], ["&&"], ["|"], ["^"], ["&"], ["==", "!="], ["<", ">", "<=", ">="], ["<<", ">>"],
    ["+", "-"], ["*", "/", "%"]]

def precedence? (op : String) : Option Nat := binaryOperators.findIdx? (·.contains op)

/-- The rank of casts and prefix operators, above that of every binary operator. -/
def prefixRank : Nat := 11

def postfixRank : Nat := 12

/-- How tight the outermost operation of the expression binds. -/
def rank : Expr → Nat
  | cast .. | unary .. => prefixRank
  | binary op .. => (precedence? op).getD 0
  | _ => postfixRank

/-- Whether every operand binds as tight as its operation needs it to; operators of one precedence
group to the left. -/
def isWellFormed : Expr → Bool
  | name s => isIdentifier s && !isTypeName s
  | number s => isNumber s
  | paren e => e.isWellFormed
  | member e field => e.isWellFormed && e.rank == postfixRank && isIdentifier field
  | index e i => e.isWellFormed && e.rank == postfixRank && i.isWellFormed
  | invoke f => f.isWellFormed && f.rank == postfixRank
  | call f args => f.isWellFormed && f.rank == postfixRank && args.isWellFormed
  | construct type args => isTypeName type && args.isWellFormed
  | cast type e => isTypeName type && e.isWellFormed && decide (prefixRank ≤ e.rank)
  | unary op e => prefixOperators.contains op && e.isWellFormed && decide (prefixRank ≤ e.rank)
  | binary op l r =>
    (precedence? op).any (fun q => decide (q ≤ l.rank) && decide (q < r.rank)) &&
      l.isWellFormed && r.isWellFormed

def lexemes : Expr → List Lexeme
  | name s => [.name s]
  | number s => [.number s]
  | paren e => .symbol "(" :: e.lexemes ++ [.symbol ")"]
  | member e field => e.lexemes ++ [.symbol ".", .name field]
  | index e i => e.lexemes ++ .symbol "[" :: i.lexemes ++ [.symbol "]"]
  | invoke f => f.lexemes ++ [.symbol "(", .symbol ")"]
  | call f args => f.lexemes ++ .symbol "(" :: args.lexemes ++ [.symbol ")"]
  | construct type args => .name type :: .symbol "(" :: args.lexemes ++ [.symbol ")"]
  | cast type e => .symbol "(" :: .name type :: .symbol ")" :: e.lexemes
  | unary op e => .symbol op :: e.lexemes
  | binary op l r => l.lexemes ++ .symbol op :: r.lexemes

/-- The text can be read as the expression. -/
def Reads (text : String) (e : Expr) : Prop :=
  Lexeme.read text = some e.lexemes ∧ e.isWellFormed = true

instance (text : String) (e : Expr) : Decidable (Reads text e) :=
  inferInstanceAs (Decidable (_ ∧ _))

/-! ### One reading -/

/-- What is open on the left of an expression under way. -/
inductive Frame where
  | paren
  | index (e : Expr)
  | call (f : Expr)
  | construct (type : String)
  | cast (type : String)
  | unary (op : String)
  | binary (op : String) (l : Expr)

namespace Frame

/-- The least rank of an expression that may stand in the frame. -/
def floor : Frame → Nat
  | paren | index _ | call _ | construct _ => 0
  | cast _ | unary _ => prefixRank
  | binary op _ => (precedence? op).getD 0 + 1

def fill : Frame → Expr → Expr
  | paren, e => .paren e
  | index b, e => .index b e
  | call f, e => .call f e
  | construct type, e => .construct type e
  | cast type, e => .cast type e
  | unary op, e => .unary op e
  | binary op l, e => .binary op l e

/-- The symbol that closes the frame. -/
def closer? : Frame → Option String
  | paren | call _ | construct _ => some ")"
  | index _ => some "]"
  | _ => none

end Frame

inductive Mode where
  /-- An operand is to come. -/
  | start
  | type (t : String)
  /-- An expression that may go on. -/
  | whole (e : Expr)
  /-- The name of a member is to come. -/
  | access (e : Expr)

/-- Fills the frames that bind tighter than an operator of precedence `q`. -/
def fillAbove (q : Nat) : List Frame → Expr → List Frame × Expr
  | [], e => ([], e)
  | f :: stack, e => if q < f.floor then fillAbove q stack (f.fill e) else (f :: stack, e)

def step : Mode × List Frame → Lexeme → Option (Mode × List Frame)
  | (.start, stack), .name s => some (if isTypeName s then .type s else .whole (.name s), stack)
  | (.start, stack), .number s => some (.whole (.number s), stack)
  | (.start, stack), .symbol s =>
    if s = "(" then some (.start, .paren :: stack)
    else if prefixOperators.contains s then some (.start, .unary s :: stack)
    else match stack with
      | .call f :: stack => if s = ")" then some (.whole (.invoke f), stack) else none
      | _ => none
  | (.type t, stack), .symbol s =>
    if s = "(" then some (.start, .construct t :: stack)
    else match stack with
      | .paren :: stack => if s = ")" then some (.start, .cast t :: stack) else none
      | _ => none
  | (.whole e, stack), .symbol s =>
    match precedence? s with
    | some q => some (.start, .binary s (fillAbove q stack e).2 :: (fillAbove q stack e).1)
    | none =>
      if s = "." then some (.access e, stack)
      else if s = "(" then some (.start, .call e :: stack)
      else if s = "[" then some (.start, .index e :: stack)
      else match fillAbove 0 stack e with
        | (f :: stack, e) => if f.closer? = some s then some (.whole (f.fill e), stack) else none
        | ([], _) => none
  | (.access e, stack), .name s => some (.whole (.member e s), stack)
  | _, _ => none

/-- The expression with the given lexemes. -/
def ofLexemes? (ls : List Lexeme) : Option Expr :=
  (ls.foldlM step (.start, [])).bind fun
    | (.whole e, stack) => some (fillAbove 0 stack e).2
    | _ => none

/-- The frames along the right edge of an expression, the innermost first. -/
def edge : Expr → List Frame
  | cast type e => e.edge ++ [.cast type]
  | unary op e => e.edge ++ [.unary op]
  | binary op l r => r.edge ++ [.binary op l]
  | _ => []

/-- The operand at the right edge. -/
def last : Expr → Expr
  | cast _ e | unary _ e | binary _ _ e => e.last
  | e => e

/-- The least rank that the innermost frame admits. -/
def floor : List Frame → Nat
  | [] => 0
  | f :: _ => f.floor

theorem precedence?_lt {op : String} {q : Nat} (h : precedence? op = some q) : q < prefixRank := by
  obtain ⟨hlt, -⟩ := List.findIdx?_eq_some_iff_findIdx_eq.mp h
  exact hlt

theorem isWellFormed_binary {op : String} {l r : Expr} :
    (binary op l r).isWellFormed = true ↔ ∃ q, precedence? op = some q ∧ q ≤ l.rank ∧ q < r.rank ∧
      l.isWellFormed = true ∧ r.isWellFormed = true := by
  cases h : precedence? op <;> simp [isWellFormed, h, and_assoc]

theorem edge_of_rank {e : Expr} (h : e.rank = postfixRank) : e.edge = [] ∧ e.last = e := by
  cases e with
  | cast | unary => cases h
  | binary op =>
    cases hq : precedence? op with
    | none => simp [rank, hq, postfixRank] at h
    | some q =>
      have hlt := precedence?_lt hq
      simp only [rank, hq, Option.getD_some] at h
      simp [h, postfixRank, prefixRank] at hlt
  | _ => exact ⟨rfl, rfl⟩

theorem fillAbove_of_floor {q : Nat} {stack : List Frame} (h : floor stack ≤ q) (e : Expr) :
    fillAbove q stack e = (stack, e) := by
  cases stack with
  | nil => rfl
  | cons f stack => exact if_neg (Nat.not_lt.mpr h)

/-- The frames along the right edge of an expression are filled by what does not bind tighter. -/
theorem fillAbove_edge {e : Expr} {q : Nat} (he : e.isWellFormed = true) (hq : q ≤ e.rank)
    (hlt : q < prefixRank) (stack : List Frame) :
    fillAbove q (e.edge ++ stack) e.last = fillAbove q stack e := by
  induction e generalizing stack with
  | cast type e ih | unary op e ih =>
    simp only [isWellFormed, Bool.and_eq_true, decide_eq_true_eq] at he
    rw [edge, List.append_assoc, last, ih he.1.2 (hlt.le.trans he.2)]
    exact if_pos hlt
  | binary op l r _ ih =>
    obtain ⟨p, hp, -, hpr, -, hr⟩ := isWellFormed_binary.mp he
    have hqp : q ≤ p := by simpa [rank, hp] using hq
    rw [edge, List.append_assoc, last, ih hr (hqp.trans hpr.le)]
    exact if_pos (by simpa [Frame.floor, hp] using Nat.lt_succ_of_le hqp)
  | _ => rfl

/-- An operator that comes after an expression, and does not bind tighter, takes all of it. -/
theorem step_operator {e : Expr} {op : String} {q : Nat} {stack : List Frame}
    (he : e.isWellFormed = true) (hop : precedence? op = some q) (hq : q ≤ e.rank)
    (hstack : floor stack ≤ q) :
    step (.whole e.last, e.edge ++ stack) (.symbol op) = some (.start, .binary op e :: stack) := by
  simp only [step, hop]
  rw [fillAbove_edge he hq (precedence?_lt hop), fillAbove_of_floor hstack]

/-- A closing bracket after an expression fills the frame of its opening bracket. -/
theorem step_closer {e : Expr} {f : Frame} {s : String} (he : e.isWellFormed = true)
    (hf : f.closer? = some s) (stack : List Frame) :
    step (.whole e.last, e.edge ++ f :: stack) (.symbol s) = some (.whole (f.fill e), stack) := by
  have hfloor : f.floor = 0 := by cases f <;> first | rfl | cases hf
  have hs : s = ")" ∨ s = "]" := by cases f <;> cases hf <;> simp
  have hnone : precedence? s = none := by rcases hs with rfl | rfl <;> rfl
  have hopen : s ≠ "." ∧ s ≠ "(" ∧ s ≠ "[" := by rcases hs with rfl | rfl <;> decide
  simp only [step, hnone, hopen.1, hopen.2.1, hopen.2.2, if_false]
  rw [fillAbove_edge he (Nat.zero_le _) (by decide), fillAbove_of_floor (by simp [floor, hfloor])]
  exact if_pos hf

/-- The lexemes lead from one state to another. -/
def Leads (a : Mode × List Frame) (ls : List Lexeme) (b : Mode × List Frame) : Prop :=
  ls.foldlM step a = some b

namespace Leads

variable {a b c : Mode × List Frame} {l : Lexeme} {ls ms : List Lexeme}

theorem cons (h : step a l = some b) (hs : Leads b ls c) : Leads a (l :: ls) c := by
  unfold Leads
  rw [List.foldlM_cons, h]
  exact hs

theorem single (h : step a l = some b) : Leads a [l] b := cons h rfl

theorem append (h : Leads a ls b) (hs : Leads b ms c) : Leads a (ls ++ ms) c := by
  unfold Leads
  rw [List.foldlM_append, h]
  exact hs

/-- What calls, indices and member accesses apply to has no open edge. -/
theorem whole {e : Expr} {stack : List Frame} (hr : e.rank = postfixRank)
    (h : Leads a ls (.whole e.last, e.edge ++ stack)) : Leads a ls (.whole e, stack) := by
  obtain ⟨hedge, hlast⟩ := edge_of_rank hr
  rwa [hedge, hlast] at h

end Leads

/-- The lexemes of an expression leave it on the stack, its right edge still open. -/
theorem leads_lexemes {e : Expr} (he : e.isWellFormed = true) (stack : List Frame)
    (hstack : floor stack ≤ e.rank) :
    Leads (.start, stack) e.lexemes (.whole e.last, e.edge ++ stack) := by
  induction e generalizing stack with
  | name s =>
    simp only [isWellFormed, Bool.and_eq_true, Bool.not_eq_true'] at he
    exact .single (by simp [step, he.2, last, edge])
  | number s => exact .single rfl
  | paren e ih =>
    have he' : e.isWellFormed = true := he
    have hinside := ih he' (.paren :: stack) (Nat.zero_le _)
    exact .cons rfl (hinside.append (.single (step_closer he' rfl stack)))
  | member e field ih =>
    simp only [isWellFormed, Bool.and_eq_true, beq_iff_eq] at he
    have hbase := (ih he.1.1 stack (hstack.trans_eq he.1.2.symm)).whole he.1.2
    exact hbase.append (.cons rfl (.single rfl))
  | index e i ih ihi =>
    simp only [isWellFormed, Bool.and_eq_true, beq_iff_eq] at he
    have hbase := (ih he.1.1 stack (hstack.trans_eq he.1.2.symm)).whole he.1.2
    have hinside := ihi he.2 (.index e :: stack) (Nat.zero_le _)
    rw [lexemes, List.append_assoc]
    exact hbase.append (.cons rfl (hinside.append (.single (step_closer he.2 rfl stack))))
  | invoke f ih =>
    simp only [isWellFormed, Bool.and_eq_true, beq_iff_eq] at he
    have hbase := (ih he.1 stack (hstack.trans_eq he.2.symm)).whole he.2
    exact hbase.append (.cons rfl (.single rfl))
  | call f args ih iha =>
    simp only [isWellFormed, Bool.and_eq_true, beq_iff_eq] at he
    have hbase := (ih he.1.1 stack (hstack.trans_eq he.1.2.symm)).whole he.1.2
    have hinside := iha he.2 (.call f :: stack) (Nat.zero_le _)
    rw [lexemes, List.append_assoc]
    exact hbase.append (.cons rfl (hinside.append (.single (step_closer he.2 rfl stack))))
  | construct type args ih =>
    simp only [isWellFormed, Bool.and_eq_true] at he
    have hinside := ih he.2 (.construct type :: stack) (Nat.zero_le _)
    refine .cons (b := (.type type, stack)) (by simp [step, he.1]) (.cons rfl ?_)
    exact hinside.append (.single (step_closer he.2 rfl stack))
  | cast type e ih =>
    simp only [isWellFormed, Bool.and_eq_true, decide_eq_true_eq] at he
    have hoperand := ih he.1.2 (.cast type :: stack) he.2
    rw [edge, List.append_assoc]
    refine .cons rfl (.cons (b := (.type type, .paren :: stack)) (by simp [step, he.1.1]) ?_)
    exact .cons rfl hoperand
  | unary op e ih =>
    simp only [isWellFormed, Bool.and_eq_true, decide_eq_true_eq] at he
    have hoperand := ih he.1.2 (.unary op :: stack) he.2
    rw [edge, List.append_assoc]
    refine .cons ?_ hoperand
    have hop : op ≠ "(" := by
      rintro rfl
      exact absurd he.1.1 (by decide)
    simp only [step, hop, he.1.1, if_false, if_true]
  | binary op l r ihl ihr =>
    obtain ⟨q, hop, hql, hqr, hl, hr⟩ := isWellFormed_binary.mp he
    have hq : floor stack ≤ q := by simpa [rank, hop] using hstack
    have hleft := ihl hl stack (hq.trans hql)
    have hright := ihr hr (.binary op l :: stack) (by simpa [floor, Frame.floor, hop])
    rw [edge, List.append_assoc]
    exact hleft.append (.cons (step_operator hl hop hql hq) hright)

theorem ofLexemes?_lexemes {e : Expr} (he : e.isWellFormed = true) :
    ofLexemes? e.lexemes = some e := by
  have hleads := leads_lexemes he [] (Nat.zero_le _)
  unfold ofLexemes?
  rw [show e.lexemes.foldlM step (.start, []) = _ from hleads]
  exact congrArg (fun x => some x.2) (fillAbove_edge he (Nat.zero_le _) (by decide) [])

/-- A text is read in one way at most. -/
theorem Reads.unique {text : String} {e e' : Expr} (h : Reads text e) (h' : Reads text e') :
    e = e' := by
  have hls : e.lexemes = e'.lexemes := Option.some.inj (h.1.symm.trans h'.1)
  have he := ofLexemes?_lexemes h.2
  rw [hls, ofLexemes?_lexemes h'.2] at he
  exact (Option.some.inj he).symm

end Expr

end ShaderGraph
