import ShaderGraph.Value.Code
import ShaderGraph.Value.Type

/-! How an expression of one numeric type is turned into an expression of another. -/

namespace ShaderGraph

inductive Conversion where
  /-- `(T)(e)`, which also spreads a scalar over a vector. -/
  | convert
  /-- `e.x` -/
  | first
  /-- `(T)(e.x)` -/
  | convertFirst
  /-- The first `count` components, `e.xy`. -/
  | leading (count : Nat)
  /-- All `count` components followed by zeros, `T(e.xy, 0.0)`. -/
  | extend (count zeros : Nat)
  deriving DecidableEq

namespace Conversion

/-- The conversion from `n` to `m` components, the target being a given type. -/
def between (n m : Nat) (target : ValueType) : Conversion :=
  if n = 1 then convert
  else if m = 1 then (if target = .float1 then first else convertFirst)
  else if m < n then leading m
  else extend n (m - n)

/-- The names of the first `count` components. -/
def swizzle (count : Nat) : String := .ofList (['x', 'y', 'z', 'w'].take count)

def apply {ρ : Type} (conversion : Conversion) (target : ValueType) (code : Code ρ) : Code ρ :=
  match conversion with
  | convert => s!"({target.name})(" ++ code ++ ")"
  | first => code.operand ++ ".x"
  | convertFirst => s!"({target.name})(" ++ code.operand ++ ".x)"
  | leading count => code.operand ++ s!".{swizzle count}"
  | extend count zeros =>
    let tail := String.join (List.replicate zeros ", 0.0")
    s!"{target.name}(" ++ code.operand ++ s!".{swizzle count}{tail})"

end Conversion

end ShaderGraph
