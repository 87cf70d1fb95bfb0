import ShaderGraph.Number.Binary32

/-! Decimals of single-precision numbers. The shortest decimal that reads back as a given number is,
on the coarsest grid `10 ^ k` with a point among the reals that round to the number, the point
nearest to it. Decimals are read by way of double precision. -/

namespace ShaderGraph

/-- The decimal `digits · 10 ^ exponent`. -/
structure Decimal where
  digits : Nat
  exponent : Int
  deriving DecidableEq

/-- Where an exact half between two decimals goes. -/
inductive Tie where
  | up
  | even
  deriving DecidableEq

namespace Shortest

/-- The reals that round to a code, in half units: those between the two ends, which themselves
belong to it when the code is even. -/
structure Interval where
  low : Nat
  high : Nat
  closed : Bool

def interval (code : Nat) : Interval where
  low := BinaryFormat.single.units (code - 1) + BinaryFormat.single.units code
  high := BinaryFormat.single.units code + BinaryFormat.single.units (code + 1)
  closed := code % 2 == 0

/-- Whether `num / den` half units lie in the interval. -/
def Interval.contains (i : Interval) (num den : Nat) : Bool :=
  if i.closed then i.low * den ≤ num && num ≤ i.high * den
  else i.low * den < num && num < i.high * den

/-- The best multiple of `10 ^ k` that reads back as the code, if there is one. -/
def onGrid (tie : Tie) (code : Nat) (k : Int) : Option Nat :=
  -- one step of the grid is `step / den` half units
  let step := Nat.pow 10 k.toNat * (2 * BinaryFormat.single.unitsPerOne)
  let den := Nat.pow 10 (-k).toNat
  let value := 2 * BinaryFormat.single.units code * den
  let below := value / step
  let rest := value % step
  let range := interval code
  match range.contains (below * step) den, range.contains ((below + 1) * step) den with
  | false, false => none
  | true, false => some below
  | false, true => some (below + 1)
  | true, true =>
    if 2 * rest < step then some below
    else if step < 2 * rest then some (below + 1)
    else match tie with
      | .up => some (below + 1)
      | .even => if below % 2 = 0 then some below else some (below + 1)

/-- Grids from `10 ^ 38` down to `10 ^ (-45)`, the latter finer than the least interval. -/
def grids : List Int := (List.range 84).map fun i : Nat => 38 - (i : Int)

end Shortest

/-- The shortest decimal of a positive finite code. -/
def Decimal.shortest (tie : Tie) (code : Nat) : Decimal :=
  (Shortest.grids.findSome? fun k => (Shortest.onGrid tie code k).map (Decimal.mk · k)).getD ⟨0, 0⟩

/-- The decimal with its point in place, at least one digit on either side of it. -/
def Decimal.positional (d : Decimal) : String :=
  let den := Nat.pow 10 (-d.exponent).toNat
  let num := d.digits * Nat.pow 10 d.exponent.toNat
  let fraction := toString (num % den)
  s!"{num / den}." ++ "".pushn '0' ((-d.exponent).toNat - fraction.length) ++ fraction

/-- The number nearest to a decimal, rounded to double and then to single precision. Exponents out
of all range are decided without computing the power. -/
def Binary32.ofDecimal (negative : Bool) (d : Decimal) : Binary32 :=
  if d.digits = 0 ∨ d.exponent < -(400 + (d.digits.log2 : Int)) then ofCode negative 0
  else if 400 < d.exponent then ofCode negative BinaryFormat.single.infinity
  else ofRatioViaDouble negative (d.digits * Nat.pow 10 d.exponent.toNat)
    (Nat.pow 10 (-d.exponent).toNat)

/-- The decimal with `count` trailing zeros fewer, or with none left. -/
def Decimal.dropZeros : Nat → Decimal → Decimal
  | 0, d => d
  | count + 1, d =>
    if d.digits % 10 = 0 then dropZeros count ⟨d.digits / 10, d.exponent + 1⟩ else d

/-- The same number without trailing zeros; zero has exponent zero. -/
def Decimal.normal (d : Decimal) : Decimal :=
  if d.digits = 0 then ⟨0, 0⟩ else d.dropZeros d.digits.log2

end ShaderGraph
