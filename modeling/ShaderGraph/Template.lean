import ShaderGraph.NodeKind.Layout
import ShaderGraph.Value.Code

/-! Templates of custom code: text with placeholders `Input0`, … and `Output0`, … for the boxes of a
node. A placeholder is a whole identifier; within a longer one the same letters are plain text. -/

namespace ShaderGraph

namespace Template

inductive Segment where
  | text (s : String)
  | input (slot : Nat)
  | output (slot : Nat)
  deriving DecidableEq

def isIdentifierChar (c : Char) : Bool := c.isAlphanum || c == '_'

/-- The text cut into identifiers, as long as possible, and single other characters. -/
def tokens : List Char → List (List Char)
  | [] => []
  | c :: cs =>
    match tokens cs with
    | (d :: ds) :: rest =>
      if isIdentifierChar c && isIdentifierChar d then (c :: d :: ds) :: rest
      else [c] :: (d :: ds) :: rest
    | rest => [c] :: rest

/-- The slot that a single digit below a bound names. -/
def slot? (bound : Nat) : List Char → Option Nat
  | [c] => if c.isDigit && c.toNat - '0'.toNat < bound then some (c.toNat - '0'.toNat) else none
  | _ => none

def placeholder? : List Char → Option Segment
  | 'I' :: 'n' :: 'p' :: 'u' :: 't' :: digits => (slot? CustomCode.inputCount digits).map .input
  | 'O' :: 'u' :: 't' :: 'p' :: 'u' :: 't' :: digits =>
    (slot? CustomCode.outputCount digits).map .output
  | _ => none

/-- One segment for each placeholder, and one for all text between two of them. -/
def ofTokens : List (List Char) → List Segment
  | [] => []
  | token :: rest =>
    match placeholder? token with
    | some segment => segment :: ofTokens rest
    | none =>
      match ofTokens rest with
      | .text s :: segments => .text (.ofList token ++ s) :: segments
      | segments => .text (.ofList token) :: segments

end Template

structure Template where
  segments : List Template.Segment
  deriving DecidableEq

namespace Template

def parse (text : String) : Template := ⟨ofTokens (tokens text.toList)⟩

def isEmpty (t : Template) : Bool := t.segments.isEmpty

variable {ρ : Type}

/-- The code bound to a slot, or the placeholder itself where nothing is. -/
def bound (bindings : List (Option (Code ρ))) (slot : Nat) (placeholder : String) : Code ρ :=
  match bindings[slot]? with
  | some (some code) => code
  | _ => s!"{placeholder}{slot}"

/-- The template with code in the place of its placeholders; that code is not looked at again. -/
def render (t : Template) (inputs outputs : List (Option (Code ρ))) : Code ρ :=
  t.segments.flatMap fun
    | .text s => s
    | .input slot => bound inputs slot "Input"
    | .output slot => bound outputs slot "Output"

end Template

end ShaderGraph
