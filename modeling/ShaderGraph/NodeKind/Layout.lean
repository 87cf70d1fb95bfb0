import ShaderGraph.NodeKind.Basic

/-! Layouts of the node kinds. Inputs and outputs of a node share one space of box numbers. -/

namespace ShaderGraph

namespace BoxDecl

def inputs (first : BoxId) (types : List ValueType) : List BoxDecl :=
  types.zipIdx.map fun (type, i) => ⟨first + UInt32.ofNat i, .input, type⟩

def outputs (first : BoxId) (types : List ValueType) : List BoxDecl :=
  types.zipIdx.map fun (type, i) => ⟨first + UInt32.ofNat i, .output, type⟩

end BoxDecl

/-! ### Boxes with a role of their own -/

namespace CustomCode

def inputCount : Nat := 8

def outputCount : Nat := 4

def inputBox (i : Nat) : BoxId := UInt32.ofNat i

def outputBox (i : Nat) : BoxId := 8 + UInt32.ofNat i

end CustomCode

namespace FunctionCall

def inputCount : Nat := 16

def outputCount : Nat := 16

def inputBox (i : Nat) : BoxId := UInt32.ofNat i

/-- Which output of the function a box of the call node stands for. -/
def outputIndex? (box : BoxId) : Option Nat :=
  let n := box.toNat
  if 16 ≤ n ∧ n < 16 + outputCount then some (n - 16) else none

end FunctionCall

namespace NodeKind

open BoxDecl ValueType

/-- The boxes of a kind. Those of a function call only fix which connections are possible: their
values have the types that the called graph gives them. -/
def layout : NodeKind → List BoxDecl
  | materialOutput =>
    inputs 0 [float3, float1, float3, float1, float1, float1, float1, float3, float1, float1,
      float3, float3, float1, float3]
  | worldPosition | normal | cameraVector | objectPosition | preSkinnedLocalPosition
  | preSkinnedLocalNormal | tangent | bitangent | cameraPosition | objectSize | vector3 =>
    outputs 0 [float3]
  | view => outputs 0 [float3, float3, float1]
  | screenPosition | screenSize => outputs 0 [float2, float2]
  | customCode => inputs 0 (.replicate 8 float4) ++ outputs 8 (.replicate 4 float4)
  | twoSidedSign | depth | perInstanceRandom | terrainHolesMask | terrainLayerWeight | depthFade
  | float => outputs 0 [float1]
  | cameraDepthFade => inputs 0 [float1, float1] ++ outputs 2 [float1]
  | vertexColor | vector4 => outputs 0 [float4]
  | interpolateVsToPs | abs | saturate | normalize => inputs 0 [float4] ++ outputs 1 [float4]
  | materialFunction => inputs 0 (.replicate 16 float1) ++ outputs 16 (.replicate 16 float1)
  | blendNormals => inputs 0 [float3, float3] ++ outputs 2 [float3]
  | bool => outputs 0 [.bool]
  | integer => outputs 0 [.int]
  | vector2 => outputs 0 [float2]
  | add | subtract | multiply | divide | min | max | dot =>
    inputs 0 [float4, float4] ++ outputs 2 [float4]
  | functionInput => outputs 0 [float4] ++ inputs 1 [float4]
  | functionOutput => inputs 0 [float4]

def boxDecl? (kind : NodeKind) (id : BoxId) : Option BoxDecl := kind.layout.find? (·.id == id)

end NodeKind

end ShaderGraph
