import ShaderGraph.Value.Type

/-! What a material is applied to, and the two stages of its shader. -/

namespace ShaderGraph

inductive Domain where
  | surface
  | decal
  | postProcess
  | terrain
  | gui
  | particle
  | deformable
  deriving DecidableEq

instance : Enumeration Domain where
  members := [.surface, .decal, .postProcess, .terrain, .gui, .particle, .deformable]
  identifier
    | .surface => "Surface"
    | .decal => "Decal"
    | .postProcess => "PostProcess"
    | .terrain => "Terrain"
    | .gui => "Gui"
    | .particle => "Particle"
    | .deformable => "Deformable"

instance : Inhabited Domain := ⟨.surface⟩

/-- Whether values can be handed from the vertex stage to the pixel stage. -/
def Domain.supportsInterpolants : Domain → Bool
  | .decal | .postProcess => false
  | _ => true

/-- The layer of a material. -/
structure Layer where
  domain : Domain
  deriving DecidableEq

inductive Stage where
  | vertex
  | pixel
  deriving DecidableEq

instance : Enumeration Stage where
  members := [.vertex, .pixel]
  identifier
    | .vertex => "Vertex"
    | .pixel => "Pixel"

/-- Where the weight of a terrain layer is stored: a slot of four components, and one of them. -/
def terrainSlot? (layer : Int32) : Option (Nat × Nat) :=
  if 0 ≤ layer ∧ layer ≤ 7 then
    let n := layer.toInt.toNat
    some (n / 4, n % 4)
  else none

end ShaderGraph
