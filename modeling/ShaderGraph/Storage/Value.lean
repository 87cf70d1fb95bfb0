import ShaderGraph.Json.Codec
import ShaderGraph.Param

/-! Stored form of types, literals and parameters. -/

namespace ShaderGraph

open JsonCodec

instance : JsonCodec Dim := ofEnumeration Dim

instance : JsonCodec ValueType where
  encode
    | .bool => .string "Bool"
    | .int => .string "Int"
    | .uint => .string "UInt"
    | .float dim => .variant "Float" (encode dim)
    | .matrix => .string "Matrix"
    | .texture => .string "Texture"
  decode? j :=
    match j.variant? with
    | some ("Float", some dim) => (decode? dim).map .float
    | _ =>
      match j.unitVariant? with
      | some "Bool" => some .bool
      | some "Int" => some .int
      | some "UInt" => some .uint
      | some "Matrix" => some .matrix
      | some "Texture" => some .texture
      | _ => none

/-- An identifier is stored as its text. -/
instance : JsonCodec AssetId where
  encode a := .string a.text
  decode?
    | .string s => AssetId.ofText? s
    | _ => none

/-- Exactly `n` numbers. -/
def decodeVector? (n : Nat) (j : Json) : Option (List Binary32) :=
  match j with
  | .array items => if items.length = n then items.mapM decode? else none
  | _ => none

def encodeVector (xs : List Binary32) : Json := encode xs

instance : JsonCodec Literal where
  encode
    | .bool b => .variant "Bool" (encode b)
    | .int i => .variant "Int" (encode i)
    | .uint u => .variant "UInt" (encode u)
    | .float x => .variant "Float" (encode x)
    | .float2 x y => .variant "Float2" (encodeVector [x, y])
    | .float3 x y z => .variant "Float3" (encodeVector [x, y, z])
    | .float4 x y z w => .variant "Float4" (encodeVector [x, y, z, w])
  decode? j :=
    match j.variant? with
    | some ("Bool", some v) => (decode? v).map .bool
    | some ("Int", some v) => (decode? v).map .int
    | some ("UInt", some v) => (decode? v).map .uint
    | some ("Float", some v) => (decode? v).map .float
    | some ("Float2", some v) => do
      let [x, y] ← decodeVector? 2 v | none
      return .float2 x y
    | some ("Float3", some v) => do
      let [x, y, z] ← decodeVector? 3 v | none
      return .float3 x y z
    | some ("Float4", some v) => do
      let [x, y, z, w] ← decodeVector? 4 v | none
      return .float4 x y z w
    | _ => none

instance : JsonCodec Param where
  encode
    | .bool b => .variant "Bool" (encode b)
    | .int i => .variant "Int" (encode i)
    | .float x => .variant "Float" (encode x)
    | .float2 x y => .variant "Float2" (encodeVector [x, y])
    | .float3 x y z => .variant "Float3" (encodeVector [x, y, z])
    | .float4 x y z w => .variant "Float4" (encodeVector [x, y, z, w])
    | .text s => .variant "Text" (encode s)
    | .asset id => .variant "Asset" (encode id)
  decode? j :=
    match j.variant? with
    | some ("Bool", some v) => (decode? v).map .bool
    | some ("Int", some v) => (decode? v).map .int
    | some ("Float", some v) => (decode? v).map .float
    | some ("Float2", some v) => do
      let [x, y] ← decodeVector? 2 v | none
      return .float2 x y
    | some ("Float3", some v) => do
      let [x, y, z] ← decodeVector? 3 v | none
      return .float3 x y z
    | some ("Float4", some v) => do
      let [x, y, z, w] ← decodeVector? 4 v | none
      return .float4 x y z w
    | some ("Text", some v) => (decode? v).map .text
    | some ("Asset", some v) => (decode? v).map .asset
    | _ => none

end ShaderGraph
