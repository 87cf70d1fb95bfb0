import ShaderGraph.Material.Domain
import ShaderGraph.NodeKind.Basic
import ShaderGraph.Value.Basic

/-! The parameters of a material: what its output node collects and its shader writes. -/

namespace ShaderGraph

inductive Parameter where
  | color
  | mask
  | emissive
  | metalness
  | specular
  | roughness
  | ambientOcclusion
  | normal
  | opacity
  | refraction
  | subsurfaceColor
  | positionOffset
  | tessellationMultiplier
  | worldDisplacement
  deriving DecidableEq

namespace Parameter

/-- Every parameter, by box number. -/
def all : List Parameter := [
  color, mask, emissive, metalness, specular, roughness, ambientOcclusion, normal, opacity,
  refraction, subsurfaceColor, positionOffset, tessellationMultiplier, worldDisplacement]

instance : Enumeration Parameter where
  members := all
  identifier
    | color => "Color"
    | mask => "Mask"
    | emissive => "Emissive"
    | metalness => "Metalness"
    | specular => "Specular"
    | roughness => "Roughness"
    | ambientOcclusion => "AmbientOcclusion"
    | normal => "Normal"
    | opacity => "Opacity"
    | refraction => "Refraction"
    | subsurfaceColor => "SubsurfaceColor"
    | positionOffset => "PositionOffset"
    | tessellationMultiplier => "TessellationMultiplier"
    | worldDisplacement => "WorldDisplacement"

/-- The box of the material output node that feeds the parameter. -/
def box : Parameter → BoxId
  | color => 0
  | mask => 1
  | emissive => 2
  | metalness => 3
  | specular => 4
  | roughness => 5
  | ambientOcclusion => 6
  | normal => 7
  | opacity => 8
  | refraction => 9
  | subsurfaceColor => 10
  | positionOffset => 11
  | tessellationMultiplier => 12
  | worldDisplacement => 13

def stage : Parameter → Stage
  | positionOffset | tessellationMultiplier | worldDisplacement => .vertex
  | _ => .pixel

/-- The member of the shader's material that the parameter is written to. -/
def target : Parameter → String
  | ambientOcclusion => "AO"
  | normal => "TangentNormal"
  | p => Enumeration.identifier p

def default : Parameter → Literal
  | color | emissive | subsurfaceColor | positionOffset | worldDisplacement => .splat .d3 .zero
  | normal => .float3 .zero .zero .one
  | metalness => .float .zero
  | specular | roughness => .float .half
  | mask | ambientOcclusion | opacity | refraction | tessellationMultiplier => .float .one

def type (p : Parameter) : ValueType := p.default.type

def inStage (stage : Stage) : List Parameter := all.filter (·.stage == stage)

end Parameter

end ShaderGraph
