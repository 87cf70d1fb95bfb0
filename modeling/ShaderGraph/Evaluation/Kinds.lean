import ShaderGraph.Evaluation.Recipe
import ShaderGraph.Material.Domain
import ShaderGraph.Template
import ShaderGraph.Text.Character

/-! The recipes of the node kinds. Function calls and function inputs, which leave their graph, are
not among them. -/

namespace ShaderGraph

namespace Recipe

open ValueType

variable {ρ : Type}

/-! ### Constants and arithmetic -/

/-- The first parameter, as a value of the box's type. -/
def constant (site : Site) : Recipe ρ (Value ρ) :=
  let type := site.boxType site.box
  match site.paramValue? 0 with
  | some v => castTo type v
  | none => done (.zero type)

inductive BinaryOp where
  | add
  | subtract
  | multiply
  | divide
  | min
  | max
  | dot
  deriving DecidableEq

namespace BinaryOp

def apply (op : BinaryOp) (a b : Code ρ) : Code ρ :=
  match op with
  | add => a ++ " + " ++ b
  | subtract => a ++ " - " ++ b
  | multiply => a ++ " * " ++ b
  | divide => a ++ " / " ++ b
  | min => "min(" ++ a ++ ", " ++ b ++ ")"
  | max => "max(" ++ a ++ ", " ++ b ++ ")"
  | dot => "dot(" ++ a ++ ", " ++ b ++ ")"

/-- The type of the result for operands of a common type. -/
def resultType (op : BinaryOp) (operands : ValueType) : ValueType :=
  match op with
  | dot => float1
  | _ => operands

end BinaryOp

/-- Both operands are cast to the wider of their types. -/
def binary (op : BinaryOp) (site : Site) : Recipe ρ (Value ρ) := do
  let a ← operandOrParam site 0 0
  let b ← operandOrParam site 1 1
  let type := a.type.widest b.type
  let a ← castTo type a
  let b ← castTo type b
  newLocal (op.resultType type) (op.apply a.code b.code)

def unary (function : String) (site : Site) : Recipe ρ (Value ρ) := do
  let x ← operandOrParam site 0 0
  newLocal x.type (s!"{function}(" ++ x.code ++ ")")

def blendNormals : Recipe ρ (Value ρ) := do
  let base ← castTo float3 (← operandOr 0 (.zero float3))
  let detail ← castTo float3 (← operandOr 1 (.zero float3))
  let a := base.code
  let b := detail.code
  newLocal float3
    ("normalize(float3(" ++ a ++ ".xy + " ++ b ++ ".xy, " ++ a ++ ".z * " ++ b ++ ".z))")

/-! ### Fading -/

def cameraDepthFade (site : Site) : Recipe ρ (Value ρ) := do
  let length ← castTo float1 (← operandOrParam site 0 0)
  let offset ← castTo float1 (← operandOrParam site 1 1)
  addComment site.node.kind.name
  let toCamera ← newLocal float3 "ViewPos - input.WorldPosition.xyz"
  let forward ← newLocal float3 "TransformViewVectorToWorld(input, float3(0, 0, -1))"
  let depth ← newLocal float1
    ("dot(normalize(" ++ toCamera.code ++ "), " ++ forward.code ++ ") * length(" ++
      toCamera.code ++ ")")
  let faded ← newLocal float1 (depth.code ++ " - " ++ offset.code)
  newLocal float1 ("saturate(" ++ faded.code ++ " / " ++ length.code ++ ")")

def depthFade (site : Site) : Recipe ρ (Value ρ) := do
  let distance ← castTo float1 ((site.paramValue? 0).getD (.one float1))
  addComment site.node.kind.name
  let uv ← newLocal float2 "input.SvPosition.xy * ScreenSize.zw"
  sampleTexture .sceneDepth
  useFeature .sceneDepth
  let sampled ← newLocal float1
    (s!"{SceneTexture.sceneDepth.shaderName}.SampleLevel(SamplerLinearClamp, " ++ uv.code ++
      ", 0).x")
  let scene ← newLocal float1 ("ViewInfo.w / (" ++ sampled.code ++ " - ViewInfo.z)")
  let pixel ← newLocal float1 "mul(float4(input.WorldPosition.xyz, 1), ViewMatrix).z"
  let difference ← newLocal float1 (scene.code ++ " * ViewFar - " ++ pixel.code)
  newLocal float1 ("saturate(" ++ difference.code ++ " / " ++ distance.code ++ ")")

/-! ### Terrain -/

/-- Terrain has layers; everywhere else the weight is one. -/
def terrainLayerWeight (domain : Domain) (site : Site) : Recipe ρ (Value ρ) :=
  if domain = .terrain then
    let layer := ((site.node.param? 0).bind Param.int?).getD 0
    match terrainSlot? layer with
    | some (slot, component) => done (.expr float1 s!"input.Layers[{slot}][{component}]")
    | none => report (.invalidTerrainLayer layer) (done (.one float1))
  else done (.one float1)

/-! ### Interpolants -/

/-- The pixel stage reads a slot that the vertex stage fills; the vertex stage computes the
value. -/
def interpolate (stage : Stage) : Recipe ρ (Value ρ) :=
  match stage with
  | .vertex => do castTo float4 (← operandOr 0 (.zero float4))
  | .pixel => do
    match ← claimSlot 0 with
    | .granted slot =>
      useFeature .interpolants
      return .expr float4 s!"input.CustomVSToPS[{slot}]"
    | .full limit =>
      reportCause (.capacityExceeded (.ofNat limit))
      return .zero float4
    | .unsupported =>
      reportCause .interpolantsUnsupported
      return .zero float4

/-! ### Custom code -/

/-- A local for each output that some box reads. -/
def customOutputs (site : Site) : Recipe ρ (List (Option (Value ρ))) :=
  (List.range CustomCode.outputCount).mapM fun i =>
    if site.graph.hasConsumers site.key.node (CustomCode.outputBox i) then
      return some (← newLocal float4 (Value.zero float4).code)
    else return none

def customInputs : Recipe ρ (List (Value ρ)) :=
  (List.range CustomCode.inputCount).mapM fun i => do
    match ← operand? (CustomCode.inputBox i) with
    | some v => castTo float4 v
    | none => return .zero float4

/-- The block of a custom code node is written once: all outputs are remembered at that time. -/
def customBlock (site : Site) (text : String) : Recipe ρ (List (Option (Value ρ))) := do
  useFeature .customCode
  let outputs ← customOutputs site
  let inputs ← customInputs
  addComment site.node.kind.name
  addBlock ((Template.parse text).render (inputs.map fun v => some v.code)
    (outputs.map fun v => v.map (·.code)))
  outputs.zipIdx.forM fun (v, i) => setMemory (CustomCode.outputBox i) v
  return outputs

def customCode (site : Site) : Recipe ρ (Value ρ) :=
  match (List.range CustomCode.outputCount).find? (CustomCode.outputBox · == site.box) with
  | none => invalidOutput site
  | some i =>
    let text := ((site.node.param? 0).bind Param.text?).getD ""
    if Text.isBlank text then done (.zero float1)
    else do
      let outputs ← customBlock site text
      match site.node.box? site.box, outputs[i]? with
      | some _, some (some v) => return v
      | _, _ => return .zero float4

end Recipe

/-! ### All kinds -/

open Recipe ValueType in
/-- What evaluating a box does, for a material of some domain and in some stage. Output nodes give
no values, and calls are not evaluated within one graph. -/
def Site.recipe {ρ : Type} (site : Site) (domain : Domain) (stage : Stage) : Recipe ρ (Value ρ) :=
  match site.node.kind with
  | .materialOutput | .functionOutput | .materialFunction | .functionInput => done (.zero float1)
  | .worldPosition => done (.expr float3 "input.WorldPosition.xyz")
  | .view =>
    match site.box with
    | 0 => done (.expr float3 "ViewPos")
    | 1 => done (.expr float3 "ViewDir")
    | 2 => done (.expr float1 "ViewFar")
    | _ => invalidOutput site
  | .normal => done (.expr float3 "input.TBN[2]")
  | .cameraVector => newLocal float3 "normalize(ViewPos - input.WorldPosition.xyz)"
  | .screenPosition =>
    match site.box with
    | 0 => done (.expr float2 "input.SvPosition.xy")
    | 1 => newLocal float2 "input.SvPosition.xy * ScreenSize.zw"
    | _ => invalidOutput site
  | .screenSize =>
    match site.box with
    | 0 => done (.expr float2 "ScreenSize.xy")
    | 1 => done (.expr float2 "ScreenSize.zw")
    | _ => invalidOutput site
  | .customCode => Recipe.customCode site
  | .objectPosition => done (.expr float3 "GetObjectPosition(input)")
  | .twoSidedSign => done (.expr float1 "input.TwoSidedSign")
  | .cameraDepthFade => Recipe.cameraDepthFade site
  | .vertexColor => use .vertexColor (done (.expr float4 "input.VertexColor"))
  | .preSkinnedLocalPosition =>
    match stage with
    | .vertex => done (.expr float3 "input.PreSkinnedPosition")
    | .pixel => done (.zero float3)
  | .preSkinnedLocalNormal =>
    match stage with
    | .vertex => done (.expr float3 "input.PreSkinnedNormal")
    | .pixel => done (.zero float3)
  | .depth => newLocal float1 "distance(ViewPos, input.WorldPosition.xyz)"
  | .tangent => done (.expr float3 "input.TBN[0]")
  | .bitangent => done (.expr float3 "input.TBN[1]")
  | .cameraPosition => done (.expr float3 "ViewPos")
  | .perInstanceRandom => done (.expr float1 "GetPerInstanceRandom(input)")
  | .interpolateVsToPs => interpolate stage
  | .terrainHolesMask =>
    if domain = .terrain then done (.expr float1 "input.HolesMask") else done (.one float1)
  | .terrainLayerWeight => Recipe.terrainLayerWeight domain site
  | .depthFade => Recipe.depthFade site
  | .objectSize => done (.expr float3 "GetObjectSize(input)")
  | .blendNormals => Recipe.blendNormals
  | .bool | .integer | .float | .vector2 | .vector3 | .vector4 => constant site
  | .add => binary .add site
  | .subtract => binary .subtract site
  | .multiply => binary .multiply site
  | .divide => binary .divide site
  | .min => binary .min site
  | .max => binary .max site
  | .dot => binary .dot site
  | .abs => unary "abs" site
  | .saturate => unary "saturate" site
  | .normalize => unary "normalize" site

end ShaderGraph
