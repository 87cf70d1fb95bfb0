import ShaderGraph.Graph.Basic

/-! Problems found while code is generated. Generation goes on after each of them with a neutral
value, so that one run finds them all. -/

namespace ShaderGraph

inductive Cause where
  | missingOrInvalidAsset (id : AssetId)
  | recursiveOrMalformedCall (text : String)
  | invalidOutput (box : BoxId)
  | invalidInput (node : NodeId)
  | capacityExceeded (limit : UInt64)
  | unsupportedInContext (text : String)
  | invalidParameter (text : String)
  | typeMismatch (source target : ValueType)
  deriving DecidableEq

namespace Cause

def identifier : Cause → String
  | missingOrInvalidAsset _ => "MissingOrInvalidAsset"
  | recursiveOrMalformedCall _ => "RecursiveOrMalformedCall"
  | invalidOutput _ => "InvalidOutputIndex"
  | invalidInput _ => "InvalidInputIndex"
  | capacityExceeded _ => "CapacityExceeded"
  | unsupportedInContext _ => "UnsupportedInContext"
  | invalidParameter _ => "InvalidParameter"
  | typeMismatch _ _ => "TypeMismatch"

def message : Cause → String
  | missingOrInvalidAsset id => s!"missing or invalid function {id}"
  | recursiveOrMalformedCall text => text
  | invalidOutput box => s!"invalid output box {box}"
  | invalidInput node => s!"invalid function input #{node}"
  | capacityExceeded limit => s!"too many VS to PS interpolants used (at most {limit})"
  | unsupportedInContext text => text
  | invalidParameter text => text
  | typeMismatch source target => s!"cannot cast {source.name} to {target.name}"

def ofTypeMismatch (e : TypeMismatch) : Cause := typeMismatch e.source e.target

/-! ### Causes with a text of their own -/

def dependsOnItself (node : NodeId) : Cause :=
  recursiveOrMalformedCall s!"node #{node} depends on itself"

def recursiveCall (function : AssetId) : Cause :=
  recursiveOrMalformedCall s!"recursive call to function {function}"

/-- A function input outside of any call. -/
def missingCall : Cause := recursiveOrMalformedCall "missing calling function node"

def interpolantsUnsupported : Cause :=
  unsupportedInContext
    "VS to PS interpolants are not supported in Decal or Post Process materials"

def invalidTerrainLayer (layer : Int32) : Cause :=
  invalidParameter s!"invalid terrain layer index {layer.toInt}"

end Cause

/-- A problem and its place: a box of a node, in the material graph or in the function reached by a
path of call nodes. -/
structure Diagnostic where
  function : Option AssetId
  callPath : List NodeId
  node : NodeId
  box : BoxId
  cause : Cause
  deriving DecidableEq

def Diagnostic.text (d : Diagnostic) : String :=
  let place := s!"node #{d.node}, box {d.box}: {d.cause.message}"
  match d.function with
  | none => place
  | some function =>
    let path := " > ".intercalate (d.callPath.map fun id => s!"#{id}")
    let called := if d.callPath.isEmpty then "" else s!" called from {path}"
    s!"function {function}{called}, {place}"

end ShaderGraph
