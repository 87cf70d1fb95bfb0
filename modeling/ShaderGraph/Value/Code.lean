import ShaderGraph.Text.Character

/-! Shader code as generated: characters, among which references to local variables stand as units
of their own. What a reference is stays open, so that the same generation can run over numbered
variables or over anything that may take their place. -/

namespace ShaderGraph

/-- One unit of code. -/
inductive Atom (ρ : Type) where
  | char (c : Char)
  | ref (r : ρ)
  deriving DecidableEq

abbrev Code (ρ : Type) := List (Atom ρ)

namespace Code

variable {ρ : Type}

def ofString (s : String) : Code ρ := s.toList.map .char

instance : Coe String (Code ρ) := ⟨ofString⟩

/-- The code as text, each reference under its name. -/
def text (name : ρ → String) (code : Code ρ) : String :=
  String.join (code.map fun
    | .char c => c.toString
    | .ref r => name r)

def isWordChar (c : Char) : Bool := Text.isAlphanumeric c || c == '_' || c == '.'

/-- Whether the code, standing at a bracket depth, is a chain of names, calls, indices and member
accesses. Within brackets anything but a line break may stand. -/
def isOperandFrom : Int → Code ρ → Bool
  | _, [] => true
  | depth, .ref _ :: rest => isOperandFrom depth rest
  | depth, .char c :: rest =>
    if c == '(' || c == '[' then isOperandFrom (depth + 1) rest
    else if c == ')' || c == ']' then isOperandFrom (depth - 1) rest
    else (if 0 < depth then c != '\n' else isWordChar c) && isOperandFrom depth rest

def isOperand (code : Code ρ) : Bool := isOperandFrom 0 code

/-- The code as one operand, in parentheses where it needs them. -/
def operand (code : Code ρ) : Code ρ :=
  if code.isOperand then code else "(" ++ code ++ ")"

end Code

end ShaderGraph
