/-!
# Names in scripts

A name of a shader is kept unless a script reserves it: then it gets an underscore at its end.
-/

namespace ShaderAlgebra.Script

/-- The words that a shader may use as names and a script may not, and the names that the preamble
binds or uses. -/
def reservedWords : List String :=
  ["arguments", "await", "case", "catch", "class", "debugger", "default", "delete", "enum", "eval",
   "export", "extends", "finally", "function", "implements", "import", "in", "Infinity",
   "instanceof", "interface", "let", "Math", "NaN", "new", "null", "package", "private",
   "protected", "public", "static", "super", "switch", "this", "throw", "try", "typeof",
   "undefined", "var", "with", "yield", "glsl", "vec2", "vec3", "vec4", "mat2", "mat3", "mat4",
   "Float32Array", "structuredClone"]

/-- The spelling of a shader's name in a script. -/
def mangle (name : String) : String := if name ∈ reservedWords then name ++ "_" else name

end ShaderAlgebra.Script
