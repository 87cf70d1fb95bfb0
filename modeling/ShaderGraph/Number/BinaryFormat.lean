/-! Binary floating-point formats, on the unsigned part of their numbers. A *code* is the bit
pattern below the sign bit; codes are ordered as the numbers they stand for. Every finite number of
a format is a natural multiple of its least positive one, so a code has an exact value in *units*
and rounding is a division of naturals. -/

namespace ShaderGraph

/-- The quotient `num / den` rounded to nearest, a half going to the even neighbour. -/
def roundDiv (num den : Nat) : Nat :=
  let q := num / den
  let r := num % den
  if 2 * r < den then q
  else if den < 2 * r then q + 1
  else if q % 2 = 0 then q else q + 1

/-- A format: the number of stored fraction bits, the unit `2 ^ (-scale)`, and the code of
infinity. -/
structure BinaryFormat where
  fractionBits : Nat
  scale : Nat
  infinity : Nat

namespace BinaryFormat

def single : BinaryFormat := ⟨23, 149, 0x7f800000⟩

def double : BinaryFormat := ⟨52, 1074, 0x7ff0000000000000⟩

/-- The number of fractions, which is also the weight of the leading bit left out of a code. -/
def fractions (F : BinaryFormat) : Nat := Nat.pow 2 F.fractionBits

/-- How many units make one. -/
def unitsPerOne (F : BinaryFormat) : Nat := Nat.pow 2 F.scale

/-- The value of a code, in units. The code of infinity gets the value its exponent would have. -/
def units (F : BinaryFormat) (code : Nat) : Nat :=
  if code < F.fractions then code
  else (F.fractions + code % F.fractions) * Nat.pow 2 (code / F.fractions - 1)

/-- The code nearest to `num / den`, a half going to the even code. A carry out of the fraction
moves to the next exponent by itself, and whatever is too large becomes infinity. -/
def nearest (F : BinaryFormat) (num den : Nat) : Nat :=
  let scaled := num * F.unitsPerOne
  let exponent := Nat.log2 (scaled / den) - F.fractionBits
  min F.infinity (exponent * F.fractions + roundDiv scaled (den * Nat.pow 2 exponent))

end BinaryFormat

end ShaderGraph
