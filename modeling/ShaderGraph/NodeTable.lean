import ShaderGraph.NodeKind.Basic

/-! Tables of node kinds declared as the variants of an enumeration. Attributes give a variant its
group, its code and possibly a name; a table is refused when an attribute is not understood, when a
number is missing, or when two variants share a type identifier. -/

namespace ShaderGraph

namespace NodeTable

/-- The value of an entry `key = value`. -/
inductive Setting where
  | int (n : Nat)
  /-- An integer written with a minus sign. -/
  | negative (n : Nat)
  | str (s : String)
  | bool (b : Bool)
  /-- A literal of another type. -/
  | other
  deriving DecidableEq

/-- One item between the parentheses of an attribute. -/
inductive Item where
  | entry (key : String) (value : Setting)
  /-- Whatever is not of the form `key = value`. -/
  | other
  deriving DecidableEq

inductive Attribute where
  | node (items : List Item)
  /-- A `node` attribute without a list of items. -/
  | nodeWithoutList
  /-- A `node` attribute that cannot be read, with what is said about it. -/
  | unreadable (complaint : String)
  | unrelated
  deriving DecidableEq

/-- The payload of a variant. Node kinds have none. -/
inductive Fields where
  | unit
  | tuple
  | named
  deriving DecidableEq

structure Variant where
  identifier : String
  attributes : List Attribute
  fields : Fields
  deriving DecidableEq

inductive Declaration where
  | enumeration (variants : List Variant)
  | record
  deriving DecidableEq

/-- A row of the table. -/
structure Row where
  identifier : String
  type : NodeTypeId
  name : String
  deriving DecidableEq

inductive Error where
  | notAnEnumeration
  | hasFields
  | listExpected
  | entryExpected
  | unknownEntry
  | unreadable (complaint : String)
  | invalidDigit
  | numberTooLarge
  | missingGroup
  | missingOp
  | duplicate (type : NodeTypeId) (first : String)
  deriving DecidableEq

def Error.message : Error → String
  | notAnEnumeration => "NodeTable can only be derived for enums"
  | hasFields => "node kinds cannot carry fields"
  | listExpected => "expected #[node(group = …, op = …)]"
  | entryExpected => "expected `key = value`"
  | unknownEntry => "unknown node attribute"
  | unreadable complaint => complaint
  | invalidDigit => "invalid digit found in string"
  | numberTooLarge => "number too large to fit in target type"
  | missingGroup => "missing `group` in #[node(…)]"
  | missingOp => "missing `op` in #[node(…)]"
  | duplicate type first => s!"node type ({type.group}, {type.op}) is already used by `{first}`"

/-! ### Reading a variant -/

/-- What the items read so far say about a variant. -/
structure Reading where
  group : Option UInt16 := none
  op : Option UInt16 := none
  name : Option String := none

def number (n : Nat) : Except Error UInt16 :=
  if n ≤ 65535 then .ok (UInt16.ofNat n) else .error .numberTooLarge

/-- A later entry replaces an earlier one of the same key. -/
def Reading.item (r : Reading) : Item → Except Error Reading
  | .entry "group" (.int n) => do return { r with group := some (← number n) }
  | .entry "op" (.int n) => do return { r with op := some (← number n) }
  | .entry "group" (.negative _) | .entry "op" (.negative _) => .error .invalidDigit
  | .entry "name" (.str s) => .ok { r with name := some s }
  | .entry _ _ => .error .unknownEntry
  | .other => .error .entryExpected

def Reading.attribute (r : Reading) : Attribute → Except Error Reading
  | .node items => items.foldlM Reading.item r
  | .nodeWithoutList => .error .listExpected
  | .unreadable complaint => .error (.unreadable complaint)
  | .unrelated => .ok r

def Variant.row (v : Variant) : Except Error Row :=
  if v.fields ≠ .unit then .error .hasFields
  else do
    let r ← v.attributes.foldlM Reading.attribute {}
    match r.group, r.op with
    | none, _ => .error .missingGroup
    | some _, none => .error .missingOp
    | some group, some op =>
      .ok ⟨v.identifier, ⟨group, op⟩, r.name.getD (Text.spaced v.identifier)⟩

/-! ### The table -/

/-- The first row that repeats the type of an earlier one, with that earlier one. -/
def repeated? (earlier : List Row) : List Row → Option (Row × Row)
  | [] => none
  | row :: rest =>
    match earlier.find? (·.type == row.type) with
    | some first => some (first, row)
    | none => repeated? (earlier ++ [row]) rest

/-- The rows of a declaration, in order. -/
def ofDeclaration : Declaration → Except Error (List Row)
  | .record => .error .notAnEnumeration
  | .enumeration variants => do
    let rows ← variants.mapM Variant.row
    match repeated? [] rows with
    | some (first, row) => .error (.duplicate row.type first.identifier)
    | none => .ok rows

/-- The row of a type identifier. -/
def find? (rows : List Row) (type : NodeTypeId) : Option Row := rows.find? (·.type == type)

end NodeTable

end ShaderGraph
