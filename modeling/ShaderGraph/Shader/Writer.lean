import ShaderGraph.Value.Basic

/-! Statements of a shader stage, and the writer that collects them. Statements are kept as data;
their text is made at the end. -/

namespace ShaderGraph

/-- A local variable of a stage, by its number. -/
abbrev Local := Nat

def Local.name (n : Local) : String := s!"local{n}"

namespace Code

/-- Code over numbered local variables as text. -/
def source (code : Code Local) : String := code.text Local.name

end Code

inductive Statement where
  /-- A local variable with its initialiser. -/
  | declare (name : Local) (type : ValueType) (init : Code Local)
  | block (body : Code Local)
  | comment (text : String)
  deriving DecidableEq

namespace Statement

def isComment : Statement → Bool
  | comment _ => true
  | _ => false

def isDeclaration : Statement → Bool
  | declare .. => true
  | _ => false

def source : Statement → String
  | declare name type init => s!"  {type.name} {name.name} = {init.source};\n"
  | block body =>
    let text := body.source
    let stop := if text.toList.getLast? = some '\n' then "" else "\n"
    s!"  \x7b\n{text}{stop}  \x7d\n"
  | comment text => s!"  // {text}\n"

end Statement

/-- The statements written so far, first to last. -/
structure Writer where
  statements : List Statement := []
  deriving DecidableEq

namespace Writer

/-- Locals are numbered in the order of their declarations. -/
def nextLocal (w : Writer) : Local := w.statements.countP (·.isDeclaration)

/-- Comments are not counted. -/
def statementCount (w : Writer) : Nat := w.statements.countP (!·.isComment)

def push (w : Writer) (s : Statement) : Writer := ⟨w.statements ++ [s]⟩

/-- Declares the next local; its value is the local itself. -/
def declare (w : Writer) (type : ValueType) (init : Code Local) : Value Local × Writer :=
  (.expr type [.ref w.nextLocal], w.push (.declare w.nextLocal type init))

/-- Declares the next local with the neutral value of its type. -/
def declareZero (w : Writer) (type : ValueType) : Value Local × Writer :=
  w.declare type (Value.zero type).code

def source (w : Writer) : String := String.join (w.statements.map Statement.source)

/-- The text of the statements after the first `n`. -/
def sourceFrom (w : Writer) (n : Nat) : String :=
  String.join ((w.statements.drop n).map Statement.source)

end Writer

end ShaderGraph
