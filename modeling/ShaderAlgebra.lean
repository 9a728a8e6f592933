import ShaderAlgebra.Proofs.Calculus.DerivativeTypes
import ShaderAlgebra.Proofs.Calculus.Gradient
import ShaderAlgebra.Proofs.Calculus.Reordering
import ShaderAlgebra.Proofs.Render.Faithful
import ShaderAlgebra.Proofs.Script.Arguments
import ShaderAlgebra.Proofs.Script.Handing
import ShaderAlgebra.Proofs.Script.Spellings
import ShaderAlgebra.Proofs.Semantics.Soundness
import ShaderAlgebra.Proofs.Simplify.Finiteness
import ShaderAlgebra.Proofs.Simplify.Integers
import ShaderAlgebra.Proofs.Simplify.Matrices
import ShaderAlgebra.Proofs.Simplify.NormalForms
import ShaderAlgebra.Proofs.Simplify.Reporting
import ShaderAlgebra.Proofs.Simplify.Traversal
import ShaderAlgebra.Proofs.Ty.Names
import ShaderAlgebra.Proofs.Typing.Erasure
import ShaderAlgebra.Proofs.Typing.Known
import ShaderAlgebra.Proofs.Typing.ScopeStack
import ShaderAlgebra.Target.Backend
