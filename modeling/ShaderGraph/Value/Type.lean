/-! Types of the values that travel along connections. -/

namespace ShaderGraph

/-- A type given by a finite list of named members. The name is the one under which the member is
stored. -/
class Enumeration (α : Type) where
  members : List α
  identifier : α → String

/-- The member of a given name. -/
def Enumeration.find? (α : Type) [Enumeration α] (name : String) : Option α :=
  (members : List α).find? fun a => identifier a == name

/-- Number of components of a float type. -/
inductive Dim where
  | scalar
  | d2
  | d3
  | d4
  deriving DecidableEq

namespace Dim

def components : Dim → Nat
  | scalar => 1
  | d2 => 2
  | d3 => 3
  | d4 => 4

def ofComponents? : Nat → Option Dim
  | 1 => some scalar
  | 2 => some d2
  | 3 => some d3
  | 4 => some d4
  | _ => none

instance : Enumeration Dim where
  members := [scalar, d2, d3, d4]
  identifier
    | scalar => "Scalar"
    | d2 => "D2"
    | d3 => "D3"
    | d4 => "D4"

end Dim

inductive ValueType where
  | bool
  | int
  | uint
  | float (dim : Dim)
  | matrix
  | texture
  deriving DecidableEq

namespace ValueType

abbrev float1 : ValueType := float .scalar

abbrev float2 : ValueType := float .d2

abbrev float3 : ValueType := float .d3

abbrev float4 : ValueType := float .d4

/-- Number of components of a numeric type. -/
def components? : ValueType → Option Nat
  | bool | int | uint => some 1
  | float dim => some dim.components
  | matrix | texture => none

def isFloat : ValueType → Bool
  | float _ => true
  | _ => false

/-- The type in which two operands meet: the one with more components and, for as many
components, a float one. Where an operand is not numeric the first type stays. -/
def widest (a b : ValueType) : ValueType :=
  match a.components?, b.components? with
  | some m, some n => if m < n ∨ (m = n ∧ !a.isFloat) then b else a
  | _, _ => a

/-- The name of the type in shader code. -/
def name : ValueType → String
  | bool => "bool"
  | int => "int"
  | uint => "uint"
  | float .scalar => "float"
  | float .d2 => "float2"
  | float .d3 => "float3"
  | float .d4 => "float4"
  | matrix => "float4x4"
  | texture => "Texture2D"

def all : List ValueType := [bool, int, uint, float1, float2, float3, float4, matrix, texture]

def ofName? (name : String) : Option ValueType := all.find? (·.name == name)

end ValueType

end ShaderGraph
