import ShaderGraph.Graph.Basic
import ShaderGraph.Material.Parameter
import ShaderGraph.Material.Usage
import ShaderGraph.Storage.Value

/-! Stored form of graphs and of the material data around them. -/

namespace ShaderGraph

open JsonCodec

instance : JsonCodec NodeKind := ofEnumeration NodeKind

instance : JsonCodec Direction := ofEnumeration Direction

instance : JsonCodec NodeTypeId where
  encode t := .object [("group", encode t.group), ("op", encode t.op)]
  decode? j := do
    let [group, op] ← j.fields? [⟨"group", false⟩, ⟨"op", false⟩] | none
    return ⟨← decode? group, ← decode? op⟩

instance : JsonCodec Connection where
  encode c := .object [("node", encode c.node), ("box_id", encode c.box)]
  decode? j := do
    let [node, box] ← j.fields? [⟨"node", false⟩, ⟨"box_id", false⟩] | none
    return ⟨← decode? node, ← decode? box⟩

instance : JsonCodec Box where
  encode b := .object [
    ("id", encode b.id), ("direction", encode b.direction), ("ty", encode b.type),
    ("connection", encode b.connection)]
  decode? j := do
    let [id, direction, type, connection] ←
      j.fields? [⟨"id", false⟩, ⟨"direction", false⟩, ⟨"ty", false⟩, ⟨"connection", true⟩] | none
    return ⟨← decode? id, ← decode? direction, ← decode? type, ← decode? connection⟩

instance : JsonCodec Node where
  encode n := .object [
    ("id", encode n.id), ("kind", encode n.kind), ("params", encode n.params),
    ("boxes", encode n.boxes)]
  decode? j := do
    let [id, kind, params, boxes] ←
      j.fields? [⟨"id", false⟩, ⟨"kind", false⟩, ⟨"params", false⟩, ⟨"boxes", false⟩] | none
    return ⟨← decode? id, ← decode? kind, ← decode? params, ← decode? boxes⟩

instance : JsonCodec Graph where
  encode g := .object [("nodes", encode g.nodes)]
  decode? j := do
    let [nodes] ← j.fields? [⟨"nodes", false⟩] | none
    return ⟨← decode? nodes⟩

instance : JsonCodec Domain := ofEnumeration Domain

instance : JsonCodec Layer where
  encode l := .object [("domain", encode l.domain)]
  decode? j := do
    let [domain] ← j.fields? [⟨"domain", false⟩] | none
    return ⟨← decode? domain⟩

instance : JsonCodec Parameter := ofEnumeration Parameter

instance : JsonCodec SceneTexture := ofEnumeration SceneTexture

end ShaderGraph
