import ShaderGraph.Value.Conversion
import ShaderGraph.Value.Literal

/-! Values of boxes: a literal, or code of a given type. -/

namespace ShaderGraph

inductive Value (ρ : Type) where
  | literal (l : Literal)
  | expr (type : ValueType) (code : Code ρ)
  deriving DecidableEq

/-- A cast between types of which one is not numeric. -/
structure TypeMismatch where
  source : ValueType
  target : ValueType
  deriving DecidableEq

namespace Value

variable {ρ : Type}

def type : Value ρ → ValueType
  | literal l => l.type
  | expr type _ => type

def literal? : Value ρ → Option Literal
  | literal l => some l
  | expr .. => none

def code : Value ρ → Code ρ
  | literal l => l.text
  | expr _ code => code

/-- The neutral value of a type. -/
def zero : ValueType → Value ρ
  | .bool => literal (.bool false)
  | .int => literal (.int 0)
  | .uint => literal (.uint 0)
  | .float dim => literal (.splat dim .zero)
  | .matrix => expr .matrix "(float4x4)0"
  | .texture => expr .texture "(Texture2D)0"

def one : ValueType → Value ρ
  | .bool => literal (.bool true)
  | .int => literal (.int 1)
  | .uint => literal (.uint 1)
  | .float dim => literal (.splat dim .one)
  | .matrix => expr .matrix "float4x4(1, 0, 0, 0, 0, 1, 0, 0, 0, 0, 1, 0, 0, 0, 0, 1)"
  | .texture => zero .texture

/-- The value converted to a type: a literal is folded, code is wrapped. -/
def cast (v : Value ρ) (target : ValueType) : Except TypeMismatch (Value ρ) :=
  if v.type = target then .ok v
  else match v.type.components?, target.components? with
    | some n, some m =>
      match v.literal?.bind (·.cast? target) with
      | some l => .ok (literal l)
      | none => .ok (expr target ((Conversion.between n m target).apply target v.code))
    | _, _ => .error ⟨v.type, target⟩

end Value

end ShaderGraph
