import ShaderGraph.Number.BinaryFormat

/-! Single-precision numbers by their bits, with the conversions that literals need. -/

namespace ShaderGraph

/-- A number of the 32-bit binary format. Zeros of both signs and all NaNs are kept apart. -/
structure Binary32 where
  bits : UInt32
  deriving DecidableEq

namespace Binary32

def signBit : Nat := 0x80000000

def negative (x : Binary32) : Bool := signBit ≤ x.bits.toNat

/-- The bits below the sign. -/
def code (x : Binary32) : Nat := x.bits.toNat % signBit

def ofCode (negative : Bool) (code : Nat) : Binary32 :=
  ⟨UInt32.ofNat ((if negative then signBit else 0) + code)⟩

/-- The magnitude in units of `2 ^ (-149)`. -/
def units (x : Binary32) : Nat := BinaryFormat.single.units x.code

def isNaN (x : Binary32) : Bool := BinaryFormat.single.infinity < x.code

def isFinite (x : Binary32) : Bool := x.code < BinaryFormat.single.infinity

/-- Both zeros. -/
def isZero (x : Binary32) : Bool := x.code == 0

def isIntegral (x : Binary32) : Bool := x.isFinite && x.units % BinaryFormat.single.unitsPerOne == 0

def zero : Binary32 := ⟨0⟩

def one : Binary32 := ⟨0x3f800000⟩

def half : Binary32 := ⟨0x3f000000⟩

/-- The number nearest to `± num / den`. -/
def ofRatio (negative : Bool) (num den : Nat) : Binary32 :=
  ofCode negative (BinaryFormat.single.nearest num den)

def ofInt (n : Int) : Binary32 := ofRatio (n < 0) n.natAbs 1

/-- The double-precision number nearest to `± num / den`, rounded again to single precision. -/
def ofRatioViaDouble (negative : Bool) (num den : Nat) : Binary32 :=
  let code := BinaryFormat.double.nearest num den
  if code < BinaryFormat.double.infinity then
    ofRatio negative (BinaryFormat.double.units code) BinaryFormat.double.unitsPerOne
  else ofCode negative BinaryFormat.single.infinity

/-- The integral part of the magnitude; that of an infinity is beyond every 64-bit integer. -/
def wholePart (x : Binary32) : Nat := x.units / BinaryFormat.single.unitsPerOne

/-- Truncation toward zero. A NaN gives zero. -/
def truncate (x : Binary32) : Int :=
  if x.isNaN then 0 else if x.negative then -x.wholePart else x.wholePart

/-- Truncation, cut off at the ends of the range. -/
def toInt32 (x : Binary32) : Int32 := Int32.ofInt (max (-2147483648) (min 2147483647 x.truncate))

def toUInt32 (x : Binary32) : UInt32 := UInt32.ofNat (min 4294967295 x.truncate.toNat)

end Binary32

end ShaderGraph
