import ShaderGraph.Diagnostic
import ShaderGraph.Storage.Value

/-! Stored form of diagnostics. -/

namespace ShaderGraph

open JsonCodec

/-- The two types of a mismatch, which stand in an object. -/
def decodeMismatch? (j : Json) : Option Cause :=
  match j with
  | .object _ => do
    let [source, target] ← j.fields? [⟨"from", false⟩, ⟨"to", false⟩] | none
    return .typeMismatch (← decode? source) (← decode? target)
  | _ => none

instance : JsonCodec Cause where
  encode cause :=
    .variant cause.identifier <|
      match cause with
      | .missingOrInvalidAsset id => encode id
      | .recursiveOrMalformedCall text => encode text
      | .invalidOutput box => encode box
      | .invalidInput node => encode node
      | .capacityExceeded limit => encode limit
      | .unsupportedInContext text => encode text
      | .invalidParameter text => encode text
      | .typeMismatch source target => .object [("from", encode source), ("to", encode target)]
  decode? j :=
    match j.variant? with
    | some ("MissingOrInvalidAsset", some v) => (decode? v).map .missingOrInvalidAsset
    | some ("RecursiveOrMalformedCall", some v) => (decode? v).map .recursiveOrMalformedCall
    | some ("InvalidOutputIndex", some v) => (decode? v).map .invalidOutput
    | some ("InvalidInputIndex", some v) => (decode? v).map .invalidInput
    | some ("CapacityExceeded", some v) => (decode? v).map .capacityExceeded
    | some ("UnsupportedInContext", some v) => (decode? v).map .unsupportedInContext
    | some ("InvalidParameter", some v) => (decode? v).map .invalidParameter
    | some ("TypeMismatch", some v) => decodeMismatch? v
    | _ => none

instance : JsonCodec Diagnostic where
  encode d := .object [
    ("function", encode d.function), ("call_path", encode d.callPath), ("node", encode d.node),
    ("box_id", encode d.box), ("kind", encode d.cause)]
  decode? j := do
    let [function, callPath, node, box, cause] ← j.fields? [
      ⟨"function", true⟩, ⟨"call_path", false⟩, ⟨"node", false⟩, ⟨"box_id", false⟩, ⟨"kind", false⟩]
      | none
    return ⟨← decode? function, ← decode? callPath, ← decode? node, ← decode? box, ← decode? cause⟩

end ShaderGraph
