import ShaderAlgebra.Calculus.Shader
import ShaderAlgebra.Script.Error

/-!
# Compilation

What every backend shares: the options, the output with its diagnostics, the errors, and the
preparation of a shader. `Shader.prepare` type-checks a shader and runs the passes that the options
ask for, so a backend sees annotated trees only.
-/

namespace ShaderAlgebra

structure CompileOptions where
  /-- Whether expressions are simplified, which may regroup arithmetic. -/
  simplify : Bool
  /-- Whether the shader is replaced by its derivatives, and how. -/
  derivatives : Option DerivativeOptions
deriving DecidableEq, Repr

namespace CompileOptions

/-- The shader is compiled as it is written. -/
def plain : CompileOptions := ⟨false, none⟩

def text (options : CompileOptions) : String :=
  "BackendOptions \x7b simplify: " ++ (if options.simplify then "true" else "false")
    ++ ", derivatives: "
    ++ (match options.derivatives with
      | some derivatives => derivatives.input.text
      | none => "off")
    ++ " \x7d"

end CompileOptions

/-! ## Output -/

inductive Severity where
  | warning
  | info
deriving DecidableEq, Repr

structure Diagnostic where
  severity : Severity
  message : String
deriving DecidableEq, Repr

/-- A file of source text. -/
structure OutputFile where
  name : String
  content : String
deriving DecidableEq, Repr

structure CompileOutput where
  files : List OutputFile
  diagnostics : List Diagnostic
deriving DecidableEq, Repr

namespace Severity

def text : Severity → String
  | .warning => "Warning"
  | .info => "Info"

end Severity

namespace Diagnostic

def text (d : Diagnostic) : String := "[" ++ d.severity.text ++ "] " ++ d.message

end Diagnostic

namespace OutputFile

/-- What the content is, with its size in bytes. -/
def contentText (file : OutputFile) : String :=
  "Text(" ++ toString file.content.utf8ByteSize ++ " chars)"

end OutputFile

namespace CompileOutput

def text (output : CompileOutput) : String :=
  toString output.files.length ++ " file(s), " ++ toString output.diagnostics.length
    ++ " diagnostic(s)"

/-- The content of the first file. -/
def content? (output : CompileOutput) : Option String := output.files.head?.map (·.content)

end CompileOutput

/-! ## Errors -/

inductive CompileError where
  | type (error : TypeError)
  | derivative (error : ShaderError)
  /-- The target cannot express the shader. -/
  | unsupported (error : LoweringError)
deriving DecidableEq, Repr

namespace CompileError

def message : CompileError → String
  | .type error => error.message
  | .derivative error => error.message
  | .unsupported error => "unsupported at `" ++ error.node ++ "`: " ++ error.fault.message

end CompileError

/-! ## Preparation -/

/-- A shader that a backend can write, and what was noticed on the way. -/
structure Prepared where
  shader : Shader
  diagnostics : List Diagnostic
deriving Repr

namespace Skipped

def diagnostic (skipped : Skipped) : Diagnostic :=
  ⟨.warning, "skipped derivative of `" ++ skipped.function ++ "` with respect to `"
    ++ skipped.parameter ++ "`: " ++ skipped.error.message⟩

end Skipped

namespace Shader

/-- The type-checked shader, or its derivatives if they are asked for. -/
def checked (shader : Shader) (derivatives : Option DerivativeOptions) :
    Logged CompileError Prepared :=
  match derivatives with
  | some options => do
    let derived ← (shader.differentiate options).mapError .derivative
    return ⟨derived.shader, derived.skipped.map Skipped.diagnostic⟩
  | none => do return ⟨← shader.infer.mapError .type, []⟩

/-- Simplifies every expression. -/
def simplified (prepared : Prepared) : Logged CompileError Prepared := do
  let report := Rules.simplifyShader Rule.all prepared.shader
  Logged.emitAll report.events
  let notes : List Diagnostic :=
    if report.changed then [⟨.info, "simplified expressions"⟩] else []
  return ⟨report.result, prepared.diagnostics ++ notes⟩

/-- Type-checks a shader and runs the passes that are asked for. -/
def prepare (shader : Shader) (options : CompileOptions) : Logged CompileError Prepared := do
  let checked ← shader.checked options.derivatives
  let prepared ← if options.simplify then simplified checked else pure checked
  Logged.emit (.preparedShader prepared.shader.items.length prepared.diagnostics.length)
  return prepared

end Shader

end ShaderAlgebra
