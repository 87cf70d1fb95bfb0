import ShaderGraph.Number.Decimal

/-! Tokens of JSON text. Integers are kept apart from all other numbers, since only they can be read
as integers. -/

namespace ShaderGraph

namespace Json

inductive Number where
  | int (n : Int)
  | decimal (negative : Bool) (d : Decimal)
  deriving DecidableEq

inductive Token where
  | null
  | bool (b : Bool)
  | number (n : Number)
  | string (s : String)
  | leftBracket
  | rightBracket
  | leftBrace
  | rightBrace
  | colon
  | comma
  deriving DecidableEq

/-! ### Writing -/

/-- A character within quotes. Quotes, backslashes and control characters are escaped. -/
def escaped (c : Char) : List Char :=
  if c == '"' then ['\\', '"']
  else if c == '\\' then ['\\', '\\']
  else if c == '\n' then ['\\', 'n']
  else if c == '\t' then ['\\', 't']
  else if c == '\r' then ['\\', 'r']
  else if c == '\x08' then ['\\', 'b']
  else if c == '\x0c' then ['\\', 'f']
  else if c.toNat < 0x20 then
    ['\\', 'u', '0', '0', Nat.digitChar (c.toNat / 16), Nat.digitChar (c.toNat % 16)]
  else [c]

def quoted (s : String) : List Char := '"' :: s.toList.flatMap escaped ++ ['"']

/-- A decimal is written with its point in place as long as the point stands at most 13 digits after
the first digit and five zeros before it, and with an exponent otherwise. -/
def decimalChars (d : Decimal) : List Char :=
  let digits := Nat.toDigits 10 d.digits
  let point : Int := digits.length + d.exponent
  if -6 < point ∧ point ≤ 13 then d.positional.toList
  else
    let exponent := point - 1
    let fraction := if digits.length ≤ 1 then [] else '.' :: digits.tail
    let sign := if exponent < 0 then '-' else '+'
    digits.take 1 ++ fraction ++ 'e' :: sign :: Nat.toDigits 10 exponent.natAbs

def Number.chars : Number → List Char
  | int n => (toString n).toList
  | decimal negative d => (if negative then ['-'] else []) ++ decimalChars d

def Token.chars : Token → List Char
  | null => "null".toList
  | bool b => (if b then "true" else "false").toList
  | number n => n.chars
  | string s => quoted s
  | leftBracket => ['[']
  | rightBracket => [']']
  | leftBrace => ['\x7b']
  | rightBrace => ['\x7d']
  | colon => [':']
  | comma => [',']

/-! ### Reading -/

def isSpace (c : Char) : Bool := c == ' ' || c == '\n' || c == '\t' || c == '\r'

def hexDigit? (c : Char) : Option Nat :=
  if c.isDigit then some (c.toNat - '0'.toNat)
  else if 'a' ≤ c ∧ c ≤ 'f' then some (c.toNat - 'a'.toNat + 10)
  else if 'A' ≤ c ∧ c ≤ 'F' then some (c.toNat - 'A'.toNat + 10)
  else none

def hex4? (a b c d : Char) : Option Nat := do
  return (((← hexDigit? a) * 16 + (← hexDigit? b)) * 16 + (← hexDigit? c)) * 16 + (← hexDigit? d)

def simpleEscape? : Char → Option Char
  | '"' => some '"'
  | '\\' => some '\\'
  | '/' => some '/'
  | 'b' => some '\x08'
  | 'f' => some '\x0c'
  | 'n' => some '\n'
  | 'r' => some '\r'
  | 't' => some '\t'
  | _ => none

/-- The characters up to the closing quote, and the rest. A character beyond the first 65536 may be
escaped as a pair of surrogates, which have no meaning alone. -/
def stringBody : List Char → Option (List Char × List Char)
  | [] => none
  | '"' :: rest => some ([], rest)
  | '\\' :: 'u' :: a :: b :: c :: d :: rest =>
    match hex4? a b c d with
    | none => none
    | some n =>
      if 0xd800 ≤ n ∧ n < 0xdc00 then
        match rest with
        | '\\' :: 'u' :: e :: f :: g :: h :: rest =>
          match hex4? e f g h with
          | none => none
          | some m =>
            if 0xdc00 ≤ m ∧ m < 0xe000 then
              (stringBody rest).map fun (cs, rest) =>
                (.ofNat (0x10000 + (n - 0xd800) * 0x400 + (m - 0xdc00)) :: cs, rest)
            else none
        | _ => none
      else if 0xdc00 ≤ n ∧ n < 0xe000 then none
      else (stringBody rest).map fun (cs, rest) => (.ofNat n :: cs, rest)
  | '\\' :: e :: rest =>
    match simpleEscape? e with
    | none => none
    | some c => (stringBody rest).map fun (cs, rest) => (c :: cs, rest)
  | c :: rest =>
    if c.toNat < 0x20 || c == '\\' then none
    else (stringBody rest).map fun (cs, rest) => (c :: cs, rest)

/-- The digits at the front. -/
def spanDigits (cs : List Char) : List Char × List Char :=
  (cs.takeWhile Char.isDigit, cs.dropWhile Char.isDigit)

def digitsValue (cs : List Char) : Nat := cs.foldl (fun n c => n * 10 + (c.toNat - '0'.toNat)) 0

/-- The integer part: zero, or digits that do not start with zero. -/
def wholePart : List Char → Option (List Char × List Char)
  | '0' :: rest => some (['0'], rest)
  | cs =>
    match spanDigits cs with
    | ([], _) => none
    | span => some span

/-- The digits after a point; none where there is no point. -/
def fractionPart : List Char → Option (List Char × List Char)
  | '.' :: rest =>
    match spanDigits rest with
    | ([], _) => none
    | span => some span
  | cs => some ([], cs)

/-- The exponent, none where there is no exponent mark. -/
def exponentPart : List Char → Option (Option Int × List Char)
  | c :: rest =>
    if c == 'e' || c == 'E' then
      let (negative, rest) := match rest with
        | '-' :: rest => (true, rest)
        | '+' :: rest => (false, rest)
        | rest => (false, rest)
      match spanDigits rest with
      | ([], _) => none
      | (digits, rest) =>
        let n : Int := digitsValue digits
        some (some (if negative then -n else n), rest)
    else some (none, c :: rest)
  | [] => some (none, [])

/-- A number without its sign. Minus zero is no integer. -/
def readUnsigned (negative : Bool) (cs : List Char) : Option (Number × List Char) := do
  let (whole, rest) ← wholePart cs
  let (fraction, rest) ← fractionPart rest
  let (exponent, rest) ← exponentPart rest
  let digits := digitsValue (whole ++ fraction)
  if fraction.isEmpty ∧ exponent.isNone ∧ ¬(negative ∧ digits = 0) then
    return (.int (if negative then -digits else digits), rest)
  else
    let d : Decimal := ⟨digits, exponent.getD 0 - fraction.length⟩
    return (.decimal negative d.normal, rest)

def readNumber : List Char → Option (Number × List Char)
  | '-' :: rest => readUnsigned true rest
  | cs => readUnsigned false cs

/-- The first token of text that does not start with a space. -/
def Token.first? : List Char → Option (Token × List Char)
  | '[' :: rest => some (.leftBracket, rest)
  | ']' :: rest => some (.rightBracket, rest)
  | '\x7b' :: rest => some (.leftBrace, rest)
  | '\x7d' :: rest => some (.rightBrace, rest)
  | ':' :: rest => some (.colon, rest)
  | ',' :: rest => some (.comma, rest)
  | 'n' :: 'u' :: 'l' :: 'l' :: rest => some (.null, rest)
  | 't' :: 'r' :: 'u' :: 'e' :: rest => some (.bool true, rest)
  | 'f' :: 'a' :: 'l' :: 's' :: 'e' :: rest => some (.bool false, rest)
  | '"' :: rest => (stringBody rest).map fun (cs, rest) => (.string (.ofList cs), rest)
  | cs => (readNumber cs).map fun (n, rest) => (.number n, rest)

/-- The tokens of text, at most `fuel` of them. -/
def Token.readAll : Nat → List Char → Option (List Token)
  | fuel, cs =>
    match fuel, cs.dropWhile isSpace with
    | _, [] => some []
    | 0, _ => none
    | fuel + 1, cs => do
      let (token, rest) ← first? cs
      return token :: (← readAll fuel rest)

/-- The tokens of text. A token takes at least one character. -/
def Token.ofText? (cs : List Char) : Option (List Token) := readAll cs.length cs

end Json

end ShaderGraph
