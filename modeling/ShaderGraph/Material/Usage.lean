import ShaderGraph.Value.Type

/-! What the code of a material uses: features of the engine, and textures of the scene. -/

namespace ShaderGraph

inductive Feature where
  | vertexColor
  | sceneDepth
  | interpolants
  | functions
  | customCode
  deriving DecidableEq

namespace Feature

/-- Every feature, by ascending bit. -/
def all : List Feature := [vertexColor, sceneDepth, interpolants, functions, customCode]

def bit : Feature → Nat
  | vertexColor => 1
  | sceneDepth => 2
  | interpolants => 4
  | functions => 8
  | customCode => 16

def flag : Feature → String
  | vertexColor => "USE_VERTEX_COLOR"
  | sceneDepth => "USE_SCENE_DEPTH"
  | interpolants => "USE_INTERPOLANTS"
  | functions => "USE_FUNCTIONS"
  | customCode => "USE_CUSTOM_CODE"

end Feature

/-- A set of features. -/
structure Usage where
  vertexColor : Bool := false
  sceneDepth : Bool := false
  interpolants : Bool := false
  functions : Bool := false
  customCode : Bool := false
  deriving DecidableEq

namespace Usage

def contains (u : Usage) : Feature → Bool
  | .vertexColor => u.vertexColor
  | .sceneDepth => u.sceneDepth
  | .interpolants => u.interpolants
  | .functions => u.functions
  | .customCode => u.customCode

def insert (u : Usage) : Feature → Usage
  | .vertexColor => { u with vertexColor := true }
  | .sceneDepth => { u with sceneDepth := true }
  | .interpolants => { u with interpolants := true }
  | .functions => { u with functions := true }
  | .customCode => { u with customCode := true }

def features (u : Usage) : List Feature := Feature.all.filter u.contains

def bits (u : Usage) : Nat := u.features.foldl (fun n f => n + f.bit) 0

/-- The features among the bits of a word; other bits are dropped. -/
def ofBits (bits : UInt32) : Usage :=
  (Feature.all.filter fun f => bits.toNat.testBit (Nat.log2 f.bit)).foldl insert {}

end Usage

inductive SceneTexture where
  | sceneDepth
  deriving DecidableEq

instance : Enumeration SceneTexture where
  members := [.sceneDepth]
  identifier
    | .sceneDepth => "SceneDepth"

/-- The name of the texture in shader code. -/
def SceneTexture.shaderName : SceneTexture → String
  | .sceneDepth => "SceneDepthTexture"

end ShaderGraph
