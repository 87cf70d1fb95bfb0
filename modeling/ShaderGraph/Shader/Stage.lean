import ShaderGraph.Material.Usage
import ShaderGraph.Shader.Writer

/-! Finished stages, and the shader text made of the two stages of a material. -/

namespace ShaderGraph

/-- A value written to a member of the shader's material. -/
structure StageOutput where
  target : String
  value : Value Local
  deriving DecidableEq

structure StageSource where
  code : String
  outputs : List StageOutput
  deriving DecidableEq

namespace StageSource

def ofWriter (w : Writer) (outputs : List StageOutput) : StageSource := ⟨w.source, outputs⟩

/-- The value of the first output to a target. -/
def output? (s : StageSource) (target : String) : Option (Value Local) :=
  (s.outputs.find? (·.target == target)).map (·.value)

/-- The function that a stage becomes. -/
def functionSource (s : StageSource) (name : String) : String :=
  let outputs := s.outputs.map fun o => s!"  material.{o.target} = {o.value.code.source};\n"
  s!"\nMaterial {name}(MaterialInput input)\n\x7b\n  Material material = (Material)0;\n" ++
    s.code ++ String.join outputs ++ "  return material;\n\x7d\n"

end StageSource

/-- The declarations of scene textures, in the order of their registers. -/
def textureSource (textures : List SceneTexture) : String :=
  String.join (textures.zipIdx.map fun (texture, i) =>
    s!"Texture2D {texture.shaderName} : register(t{i});\n")

/-- The whole shader. -/
def shaderSource (textures : List SceneTexture) (vertex pixel : StageSource) : String :=
  textureSource textures ++ vertex.functionSource "GetMaterialVS" ++
    pixel.functionSource "GetMaterialPS"

end ShaderGraph
