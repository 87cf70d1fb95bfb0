import ShaderGraph.Json.Token

/-! JSON values and their compact text. -/

namespace ShaderGraph

inductive Json where
  | null
  | bool (b : Bool)
  | number (n : Json.Number)
  | string (s : String)
  | array (items : List Json)
  | object (members : List (String × Json))

namespace Json

/-! ### Writing -/

mutual

def tokens : Json → List Token
  | null => [.null]
  | bool b => [.bool b]
  | number n => [.number n]
  | string s => [.string s]
  | array items => .leftBracket :: itemTokens items ++ [.rightBracket]
  | object members => .leftBrace :: memberTokens members ++ [.rightBrace]

def itemTokens : List Json → List Token
  | [] => []
  | [item] => item.tokens
  | item :: rest => item.tokens ++ .comma :: itemTokens rest

def memberTokens : List (String × Json) → List Token
  | [] => []
  | [(name, value)] => .string name :: .colon :: value.tokens
  | (name, value) :: rest => .string name :: .colon :: value.tokens ++ .comma :: memberTokens rest

end

def chars (j : Json) : List Char := j.tokens.flatMap Token.chars

/-- The text without any spaces. -/
def text (j : Json) : String := .ofList j.chars

/-! ### Reading

A value is read token by token. Values under construction wait on a stack. -/

/-- A container that is still open; its parts stand in reverse. -/
inductive Frame where
  | items (reversed : List Json)
  | members (reversed : List (String × Json))
  /-- An object waiting for the value of a member. -/
  | member (reversed : List (String × Json)) (name : String)

/-- What may come next. -/
inductive Expected where
  | value
  | firstItem
  | firstName
  | name
  | colon (name : String)
  /-- A comma, or the end of the container. -/
  | separator
  | nothing (result : Json)

structure Reader where
  stack : List Frame
  expected : Expected

namespace Reader

def start : Reader := ⟨[], .value⟩

/-- Puts a finished value where it belongs. -/
def put : List Frame → Json → Option Reader
  | [], j => some ⟨[], .nothing j⟩
  | .items items :: stack, j => some ⟨.items (j :: items) :: stack, .separator⟩
  | .member members name :: stack, j => some ⟨.members ((name, j) :: members) :: stack, .separator⟩
  | .members _ :: _, _ => none

/-- Containers may stand in each other up to this depth. -/
def maxDepth : Nat := 127

def «open» (stack : List Frame) (frame : Frame) (expected : Expected) : Option Reader :=
  if stack.length < maxDepth then some ⟨frame :: stack, expected⟩ else none

/-- Of several members of one name the last stays. -/
def distinct (members : List (String × Json)) : List (String × Json) :=
  members.foldl (fun kept m => kept.filter (·.1 != m.1) ++ [m]) []

def close : List Frame → Token → Option Reader
  | .items items :: stack, .rightBracket => put stack (.array items.reverse)
  | .members members :: stack, .rightBrace => put stack (.object (distinct members.reverse))
  | _, _ => none

def value (stack : List Frame) : Token → Option Reader
  | .null => put stack .null
  | .bool b => put stack (.bool b)
  | .number n => put stack (.number n)
  | .string s => put stack (.string s)
  | .leftBracket => «open» stack (.items []) .firstItem
  | .leftBrace => «open» stack (.members []) .firstName
  | _ => none

def step (r : Reader) (token : Token) : Option Reader :=
  match r.expected, token, r.stack with
  | .value, token, stack => value stack token
  | .firstItem, .rightBracket, stack => close stack .rightBracket
  | .firstItem, token, stack => value stack token
  | .firstName, .rightBrace, stack => close stack .rightBrace
  | .firstName, .string name, stack => some ⟨stack, .colon name⟩
  | .name, .string name, stack => some ⟨stack, .colon name⟩
  | .colon name, .colon, .members members :: stack => some ⟨.member members name :: stack, .value⟩
  | .separator, .comma, .items items :: stack => some ⟨.items items :: stack, .value⟩
  | .separator, .comma, .members members :: stack => some ⟨.members members :: stack, .name⟩
  | .separator, token, stack => close stack token
  | _, _, _ => none

end Reader

def ofTokens? (tokens : List Token) : Option Json :=
  match tokens.foldlM Reader.step Reader.start with
  | some ⟨[], .nothing j⟩ => some j
  | _ => none

/-- Reads the text of one value. -/
def ofText? (s : String) : Option Json := (Token.ofText? s.toList).bind ofTokens?

/-! ### Access -/

def member? (j : Json) (name : String) : Option Json :=
  match j with
  | object members => members.lookup name
  | _ => none

def int (n : Int) : Json := .number (.int n)

end Json

end ShaderGraph
