import ShaderGraph.Json.Basic
import ShaderGraph.Value.Type

/-! Values stored as JSON. A record is an object with its fields in order; it can also be read from
an array of all its fields. A variant without content is its name, one with content an object whose
only member has that name. -/

namespace ShaderGraph

class JsonCodec (α : Type) where
  encode : α → Json
  decode? : Json → Option α

export JsonCodec (encode decode?)

namespace Json

/-- The integer of a number that is written as one. -/
def int? : Json → Option Int
  | number (.int n) => some n
  | _ => none

/-- A field of a record. One that is optional may be left out, and is then null. -/
structure Field where
  name : String
  optional : Bool := false

/-- The fields of a record, in order. Further members of an object are ignored; an array has exactly
the fields. -/
def fields? (fields : List Field) : Json → Option (List Json)
  | object members => fields.mapM fun f =>
    match members.lookup f.name with
    | some value => some value
    | none => if f.optional then some null else none
  | array items => if items.length = fields.length then some items else none
  | _ => none

/-- The name of a variant and its content, if there is one. -/
def variant? : Json → Option (String × Option Json)
  | string name => some (name, none)
  | object [(name, content)] => some (name, some content)
  | _ => none

/-- The name of a variant without content, or with null as content. -/
def unitVariant? (j : Json) : Option String :=
  match j.variant? with
  | some (name, none) | some (name, some null) => some name
  | _ => none

/-- A variant with content. -/
def variant (name : String) (content : Json) : Json := object [(name, content)]

end Json

namespace JsonCodec

/-- Members of an enumeration are stored by name. -/
@[reducible] def ofEnumeration (α : Type) [Enumeration α] : JsonCodec α where
  encode a := .string (Enumeration.identifier a)
  decode? j := j.unitVariant?.bind (Enumeration.find? α)

instance : JsonCodec Bool where
  encode := .bool
  decode?
    | .bool b => some b
    | _ => none

instance : JsonCodec String where
  encode := .string
  decode?
    | .string s => some s
    | _ => none

/-- The integer of a number if it lies in a range. -/
def intBetween? (low high : Int) (j : Json) : Option Int :=
  j.int?.bind fun n => if low ≤ n ∧ n ≤ high then some n else none

instance : JsonCodec UInt16 where
  encode n := .int n.toNat
  decode? j := (intBetween? 0 65535 j).map fun n => .ofNat n.toNat

instance : JsonCodec UInt32 where
  encode n := .int n.toNat
  decode? j := (intBetween? 0 4294967295 j).map fun n => .ofNat n.toNat

instance : JsonCodec UInt64 where
  encode n := .int n.toNat
  decode? j := (intBetween? 0 18446744073709551615 j).map fun n => .ofNat n.toNat

instance : JsonCodec Int32 where
  encode n := .int n.toInt
  decode? j := (intBetween? (-2147483648) 2147483647 j).map .ofInt

/-- Numbers are written as the shortest decimal that reads back, a half between two such decimals
going to the even one. What is not finite is written as null, which is not read. Integers of up to
64 bits are rounded at once, all other numbers by way of double precision. -/
instance : JsonCodec Binary32 where
  encode x :=
    if !x.isFinite then .null
    else if x.isZero then .number (.decimal x.negative ⟨0, 0⟩)
    else .number (.decimal x.negative (.shortest .even x.code))
  decode?
    | .number (.int n) =>
      if -9223372036854775808 ≤ n ∧ n ≤ 18446744073709551615 then some (.ofInt n)
      else some (.ofDecimal (n < 0) ⟨n.natAbs, 0⟩)
    | .number (.decimal negative d) => some (.ofDecimal negative d)
    | _ => none

instance {α : Type} [JsonCodec α] : JsonCodec (List α) where
  encode xs := .array (xs.map encode)
  decode?
    | .array items => items.mapM decode?
    | _ => none

instance {α : Type} [JsonCodec α] : JsonCodec (Option α) where
  encode
    | none => .null
    | some a => encode a
  decode?
    | .null => some none
    | j => (decode? j).map some

end JsonCodec

end ShaderGraph
