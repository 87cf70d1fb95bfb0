import ShaderGraph.Text.Character
import ShaderGraph.Value.Type

/-! The kinds of nodes. A kind has an identifier, a name for people, a type identifier under which
graphs refer to it, and a layout: the boxes of its nodes. -/

namespace ShaderGraph

/-- A group of node kinds and a code within the group. -/
structure NodeTypeId where
  group : UInt16
  op : UInt16
  deriving DecidableEq

instance : ToString NodeTypeId := ⟨fun t => s!"{t.group}:{t.op}"⟩

abbrev BoxId := UInt32

inductive Direction where
  | input
  | output
  deriving DecidableEq

instance : Enumeration Direction where
  members := [.input, .output]
  identifier
    | .input => "In"
    | .output => "Out"

/-- A box of a layout. -/
structure BoxDecl where
  id : BoxId
  direction : Direction
  type : ValueType
  deriving DecidableEq

inductive NodeKind where
  | materialOutput
  | worldPosition
  | view
  | normal
  | cameraVector
  | screenPosition
  | screenSize
  | customCode
  | objectPosition
  | twoSidedSign
  | cameraDepthFade
  | vertexColor
  | preSkinnedLocalPosition
  | preSkinnedLocalNormal
  | depth
  | tangent
  | bitangent
  | cameraPosition
  | perInstanceRandom
  | interpolateVsToPs
  | terrainHolesMask
  | terrainLayerWeight
  | depthFade
  | materialFunction
  | objectSize
  | blendNormals
  | bool
  | integer
  | float
  | vector2
  | vector3
  | vector4
  | add
  | subtract
  | multiply
  | divide
  | min
  | max
  | dot
  | abs
  | saturate
  | normalize
  | functionInput
  | functionOutput
  deriving DecidableEq

namespace NodeKind

/-- Every kind, by group and code. -/
def all : List NodeKind := [
  materialOutput, worldPosition, view, normal, cameraVector, screenPosition, screenSize,
  customCode, objectPosition, twoSidedSign, cameraDepthFade, vertexColor,
  preSkinnedLocalPosition, preSkinnedLocalNormal, depth, tangent, bitangent, cameraPosition,
  perInstanceRandom, interpolateVsToPs, terrainHolesMask, terrainLayerWeight, depthFade,
  materialFunction, objectSize, blendNormals, bool, integer, float, vector2, vector3, vector4,
  add, subtract, multiply, divide, min, max, dot, abs, saturate, normalize, functionInput,
  functionOutput]

def identifier : NodeKind → String
  | materialOutput => "MaterialOutput"
  | worldPosition => "WorldPosition"
  | view => "View"
  | normal => "Normal"
  | cameraVector => "CameraVector"
  | screenPosition => "ScreenPosition"
  | screenSize => "ScreenSize"
  | customCode => "CustomCode"
  | objectPosition => "ObjectPosition"
  | twoSidedSign => "TwoSidedSign"
  | cameraDepthFade => "CameraDepthFade"
  | vertexColor => "VertexColor"
  | preSkinnedLocalPosition => "PreSkinnedLocalPosition"
  | preSkinnedLocalNormal => "PreSkinnedLocalNormal"
  | depth => "Depth"
  | tangent => "Tangent"
  | bitangent => "Bitangent"
  | cameraPosition => "CameraPosition"
  | perInstanceRandom => "PerInstanceRandom"
  | interpolateVsToPs => "InterpolateVsToPs"
  | terrainHolesMask => "TerrainHolesMask"
  | terrainLayerWeight => "TerrainLayerWeight"
  | depthFade => "DepthFade"
  | materialFunction => "MaterialFunction"
  | objectSize => "ObjectSize"
  | blendNormals => "BlendNormals"
  | bool => "Bool"
  | integer => "Integer"
  | float => "Float"
  | vector2 => "Vector2"
  | vector3 => "Vector3"
  | vector4 => "Vector4"
  | add => "Add"
  | subtract => "Subtract"
  | multiply => "Multiply"
  | divide => "Divide"
  | min => "Min"
  | max => "Max"
  | dot => "Dot"
  | abs => "Abs"
  | saturate => "Saturate"
  | normalize => "Normalize"
  | functionInput => "FunctionInput"
  | functionOutput => "FunctionOutput"

instance : Enumeration NodeKind where
  members := all
  identifier := identifier

/-- The name for people: the words of the identifier, or a spelling of its own. -/
def name : NodeKind → String
  | preSkinnedLocalPosition => "Pre-skinned Local Position"
  | preSkinnedLocalNormal => "Pre-skinned Local Normal"
  | interpolateVsToPs => "Interpolate VS To PS"
  | kind => Text.spaced kind.identifier

def typeId : NodeKind → NodeTypeId
  | materialOutput => ⟨1, 1⟩
  | worldPosition => ⟨1, 2⟩
  | view => ⟨1, 3⟩
  | normal => ⟨1, 4⟩
  | cameraVector => ⟨1, 5⟩
  | screenPosition => ⟨1, 6⟩
  | screenSize => ⟨1, 7⟩
  | customCode => ⟨1, 8⟩
  | objectPosition => ⟨1, 9⟩
  | twoSidedSign => ⟨1, 10⟩
  | cameraDepthFade => ⟨1, 11⟩
  | vertexColor => ⟨1, 12⟩
  | preSkinnedLocalPosition => ⟨1, 13⟩
  | preSkinnedLocalNormal => ⟨1, 14⟩
  | depth => ⟨1, 15⟩
  | tangent => ⟨1, 16⟩
  | bitangent => ⟨1, 17⟩
  | cameraPosition => ⟨1, 18⟩
  | perInstanceRandom => ⟨1, 19⟩
  | interpolateVsToPs => ⟨1, 20⟩
  | terrainHolesMask => ⟨1, 21⟩
  | terrainLayerWeight => ⟨1, 22⟩
  | depthFade => ⟨1, 23⟩
  | materialFunction => ⟨1, 24⟩
  | objectSize => ⟨1, 25⟩
  | blendNormals => ⟨1, 48⟩
  | bool => ⟨2, 1⟩
  | integer => ⟨2, 2⟩
  | float => ⟨2, 3⟩
  | vector2 => ⟨2, 4⟩
  | vector3 => ⟨2, 5⟩
  | vector4 => ⟨2, 6⟩
  | add => ⟨3, 1⟩
  | subtract => ⟨3, 2⟩
  | multiply => ⟨3, 3⟩
  | divide => ⟨3, 5⟩
  | min => ⟨3, 6⟩
  | max => ⟨3, 7⟩
  | dot => ⟨3, 8⟩
  | abs => ⟨3, 9⟩
  | saturate => ⟨3, 10⟩
  | normalize => ⟨3, 11⟩
  | functionInput => ⟨16, 1⟩
  | functionOutput => ⟨16, 2⟩

def ofTypeId? (t : NodeTypeId) : Option NodeKind := all.find? (·.typeId == t)

end NodeKind

end ShaderGraph
