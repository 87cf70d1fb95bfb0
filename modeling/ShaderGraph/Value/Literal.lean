import ShaderGraph.Number.Decimal
import ShaderGraph.Value.Type

/-! Literals: constants known while code is generated. Conversions between their types are folded,
and always pass through single-precision components. -/

namespace ShaderGraph

inductive Literal where
  | bool (b : Bool)
  | int (i : Int32)
  | uint (u : UInt32)
  | float (x : Binary32)
  | float2 (x y : Binary32)
  | float3 (x y z : Binary32)
  | float4 (x y z w : Binary32)
  deriving DecidableEq

/-- A float literal is written with its point: all digits of an integral number, else the shortest
decimal that reads back, a half between two such decimals going up. No exponent is ever used. -/
def Binary32.literalText (x : Binary32) : String :=
  let sign := if x.negative then "-" else ""
  if x.isNaN then "NaN"
  else if !x.isFinite then sign ++ "inf"
  else if x.isIntegral then s!"{sign}{x.wholePart}.0"
  else sign ++ (Decimal.shortest .up x.code).positional

namespace Literal

def type : Literal → ValueType
  | bool _ => .bool
  | int _ => .int
  | uint _ => .uint
  | float _ => .float1
  | float2 .. => .float2
  | float3 .. => .float3
  | float4 .. => .float4

/-- Four components: a scalar in every one of them, a vector extended with zeros. -/
def spread : Literal → Binary32 × Binary32 × Binary32 × Binary32
  | bool b => splat (if b then .one else .zero)
  | int i => splat (.ofInt i.toInt)
  | uint u => splat (.ofInt u.toNat)
  | float x => splat x
  | float2 x y => (x, y, .zero, .zero)
  | float3 x y z => (x, y, z, .zero)
  | float4 x y z w => (x, y, z, w)
where
  splat (x : Binary32) := (x, x, x, x)

/-- The literal converted to a numeric type. -/
def cast? (l : Literal) (target : ValueType) : Option Literal :=
  let (x, y, z, w) := l.spread
  match target with
  | .bool => some (bool !x.isZero)
  | .int => some (int x.toInt32)
  | .uint => some (uint x.toUInt32)
  | .float .scalar => some (float x)
  | .float .d2 => some (float2 x y)
  | .float .d3 => some (float3 x y z)
  | .float .d4 => some (float4 x y z w)
  | .matrix | .texture => none

/-- The float literal with every component `x`. -/
def splat (dim : Dim) (x : Binary32) : Literal :=
  match dim with
  | .scalar => float x
  | .d2 => float2 x x
  | .d3 => float3 x x x
  | .d4 => float4 x x x x

def text : Literal → String
  | bool b => if b then "true" else "false"
  | int i => toString i.toInt
  | uint u => s!"{u.toNat}u"
  | float x => x.literalText
  | float2 x y => s!"float2({x.literalText}, {y.literalText})"
  | float3 x y z => s!"float3({x.literalText}, {y.literalText}, {z.literalText})"
  | float4 x y z w =>
    s!"float4({x.literalText}, {y.literalText}, {z.literalText}, {w.literalText})"

end Literal

end ShaderGraph
