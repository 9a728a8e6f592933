import ShaderAlgebra.Script.Preamble
import ShaderAlgebra.Script.Shader
import ShaderAlgebra.Target.Basic

/-!
# Backends

A backend compiles shaders for one or more targets. There are two: one writes the shader as it is
after the passes, the other a script. A registry finds the backend of a target.
-/

namespace ShaderAlgebra

structure Backend where
  name : String
  /-- The names of the targets. -/
  targets : List String
  compile : Shader → CompileOptions → Logged CompileError CompileOutput

namespace Backend

/-- Writes the prepared shader in its own language. -/
def glsl : Backend where
  name := "GLSL"
  targets := ["glsl"]
  compile shader options := do
    let prepared ← shader.prepare options
    return ⟨[⟨"module.glsl", prepared.shader.text⟩], prepared.diagnostics⟩

/-- Writes the prepared shader as a script. -/
def script : Backend where
  name := "JavaScript"
  targets := ["js", "javascript"]
  compile shader options := do
    let prepared ← shader.prepare options
    let lowered ← prepared.shader.lower.mapError .unsupported
    let text := lowered.scriptText
    let note := "emitted " ++ toString lowered.items.length ++ " items for "
      ++ Script.libraryPackage ++ " " ++ Script.libraryVersion
    Logged.emit (.emittedScript text.utf8ByteSize)
    return ⟨[⟨"module.js", text⟩], prepared.diagnostics ++ [⟨.info, note⟩]⟩

end Backend

/-- The backends that are available, in the order in which they were added. -/
abbrev Registry := List Backend

namespace Registry

def empty : Registry := []

/-- The registry with the backend that needs no library. -/
def builtin : Registry := [Backend.glsl]

def register (registry : Registry) (backend : Backend) : Registry := registry ++ [backend]

/-- Every backend of this library. -/
def all : Registry := builtin.register Backend.script

/-- The first backend that handles a target. -/
def find? (registry : Registry) (target : String) : Option Backend :=
  List.find? (fun backend => backend.targets.contains target) registry

/-- The targets that are handled. -/
def targets (registry : Registry) : List String := registry.flatMap (·.targets)

end Registry

end ShaderAlgebra
