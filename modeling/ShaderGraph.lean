import ShaderGraph.Generator
import ShaderGraph.Graph.Build
import ShaderGraph.NodeTable
import ShaderGraph.Proofs.CallChain
import ShaderGraph.Proofs.Codecs
import ShaderGraph.Proofs.Comments
import ShaderGraph.Proofs.Connecting
import ShaderGraph.Proofs.Construction
import ShaderGraph.Proofs.Containment
import ShaderGraph.Proofs.Cycles
import ShaderGraph.Proofs.Expressions
import ShaderGraph.Proofs.Folding
import ShaderGraph.Proofs.Isolation
import ShaderGraph.Proofs.JsonText
import ShaderGraph.Proofs.Leftovers
import ShaderGraph.Proofs.Lexing
import ShaderGraph.Proofs.Numerals
import ShaderGraph.Proofs.Operands
import ShaderGraph.Proofs.Placeholders
import ShaderGraph.Proofs.Readers
import ShaderGraph.Proofs.RecursionGuard
import ShaderGraph.Proofs.Refinement
import ShaderGraph.Proofs.Resources
import ShaderGraph.Proofs.Rounding
import ShaderGraph.Proofs.Scope
import ShaderGraph.Proofs.SlotLimit
import ShaderGraph.Proofs.SlotValues
import ShaderGraph.Proofs.Stability
import ShaderGraph.Proofs.Swizzles
import ShaderGraph.Proofs.Termination
import ShaderGraph.Proofs.Typing
import ShaderGraph.Proofs.Unambiguity
import ShaderGraph.Storage.Diagnostic
import ShaderGraph.Storage.Graph
