import Shaderwright.Proofs.Command.Linking
import Shaderwright.Proofs.Expr.Decrements
import Shaderwright.Proofs.Expr.Floats
import Shaderwright.Proofs.Expr.Fusion
import Shaderwright.Proofs.Expr.Operands
import Shaderwright.Proofs.Expr.Operators
import Shaderwright.Proofs.Expr.Parentheses
import Shaderwright.Proofs.Render.Answers
import Shaderwright.Proofs.Render.Bindings
import Shaderwright.Proofs.Render.Failure
import Shaderwright.Proofs.Render.Feeding
import Shaderwright.Proofs.Render.Index
import Shaderwright.Proofs.Render.Ledger
import Shaderwright.Proofs.Render.Links
import Shaderwright.Proofs.Render.Objects
import Shaderwright.Proofs.Render.Roles
import Shaderwright.Proofs.Render.Sharing
import Shaderwright.Proofs.Render.Units
import Shaderwright.Proofs.Shader.Aliasing
import Shaderwright.Proofs.Shader.Chaining
import Shaderwright.Proofs.Shader.Definedness
import Shaderwright.Proofs.Shader.Emission
import Shaderwright.Proofs.Shader.Forwarding
import Shaderwright.Proofs.Shader.Locations
import Shaderwright.Proofs.Shader.Order
import Shaderwright.Proofs.Shader.Redeclaration
import Shaderwright.Proofs.Shader.Slots
import Shaderwright.Proofs.Shader.Typing
import Shaderwright.Proofs.Shader.Variance
import Shaderwright.Proofs.Variable.Wildcards
import Shaderwright.Proofs.Version.Numbers
import Shaderwright.Config.File
import Shaderwright.Main
import Shaderwright.Render.Description
import Shaderwright.Render.LinkGuard
import Shaderwright.Render.Recorder
