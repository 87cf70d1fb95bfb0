import ShaderGraph.AssetId
import ShaderGraph.Value.Basic

/-! Parameters of nodes: the constants, texts and asset references stored with them. -/

namespace ShaderGraph

inductive Param where
  | bool (b : Bool)
  | int (i : Int32)
  | float (x : Binary32)
  | float2 (x y : Binary32)
  | float3 (x y z : Binary32)
  | float4 (x y z w : Binary32)
  | text (s : String)
  | asset (id : AssetId)
  deriving DecidableEq

namespace Param

/-- The literal of a numeric parameter. -/
def literal? : Param → Option Literal
  | bool b => some (.bool b)
  | int i => some (.int i)
  | float x => some (.float x)
  | float2 x y => some (.float2 x y)
  | float3 x y z => some (.float3 x y z)
  | float4 x y z w => some (.float4 x y z w)
  | text _ | asset _ => none

def value? {ρ : Type} (p : Param) : Option (Value ρ) := p.literal?.map .literal

/-- The parameter as an integer; a float is truncated. -/
def int? : Param → Option Int32
  | bool b => some (if b then 1 else 0)
  | int i => some i
  | float x => some x.toInt32
  | _ => none

def text? : Param → Option String
  | text s => some s
  | _ => none

def asset? : Param → Option AssetId
  | asset id => some id
  | _ => none

end Param

end ShaderGraph
