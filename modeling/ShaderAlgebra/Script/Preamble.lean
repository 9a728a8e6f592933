import ShaderAlgebra.Script.Render

/-!
# The preamble of scripts

Every script starts with the import of the vector library and with a small object, `glsl`, of the
functions that the library lacks. Vectors and matrices are arrays of 32-bit floats, and matrices are
stored by columns.
-/

namespace ShaderAlgebra.Script

/-- The package that scripts import. -/
def libraryPackage : String := "gl-matrix"

/-- The versions of the package that scripts run on. -/
def libraryVersion : String := "3.4.x"

def preambleLines : List String :=
  ["import \x7b vec2, vec3, vec4, mat2, mat3, mat4 \x7d from \"gl-matrix\";",
   "",
   "const glsl = \x7b",
   "  splat(n, value) \x7b",
   "    return new Float32Array(n).fill(value);",
   "  \x7d,",
   "  vector(n, ...parts) \x7b",
   "    const out = new Float32Array(n);",
   "    let k = 0;",
   "    for (const part of parts) \x7b",
   "      for (const value of typeof part === \"number\" ? [part] : part) \x7b",
   "        if (k < n) out[k++] = value;",
   "      \x7d",
   "    \x7d",
   "    return out;",
   "  \x7d,",
   "  matrix(n, ...parts) \x7b",
   "    if (parts.length === 1 && typeof parts[0] === \"number\") \x7b",
   "      const out = new Float32Array(n * n);",
   "      for (let i = 0; i < n; i++) out[i * n + i] = parts[0];",
   "      return out;",
   "    \x7d",
   "    return glsl.vector(n * n, ...parts);",
   "  \x7d,",
   "  resize(n, m, source) \x7b",
   "    const out = new Float32Array(n * n);",
   "    for (let c = 0; c < n; c++) \x7b",
   "      for (let r = 0; r < n; r++) \x7b",
   "        out[c * n + r] = c < m && r < m ? source[c * m + r] : c === r ? 1 : 0;",
   "      \x7d",
   "    \x7d",
   "    return out;",
   "  \x7d,",
   "  swizzle(v, ...indices) \x7b",
   "    return Float32Array.from(indices, (i) => v[i]);",
   "  \x7d,",
   "  assignSwizzle(v, indices, value) \x7b",
   "    indices.forEach((i, k) => \x7b",
   "      v[i] = typeof value === \"number\" ? value : value[k];",
   "    \x7d);",
   "    return value;",
   "  \x7d,",
   "  column(m, n, i) \x7b",
   "    return m.slice(i * n, i * n + n);",
   "  \x7d,",
   "  setColumn(m, n, i, value) \x7b",
   "    m.set(value, i * n);",
   "    return value;",
   "  \x7d,",
   "  map(f, ...args) \x7b",
   "    if (args.every((a) => typeof a === \"number\")) return f(...args);",
   "    const n = Math.max(...args.map((a) => (typeof a === \"number\" ? 1 : a.length)));",
   "    const out = new Float32Array(n);",
   "    for (let i = 0; i < n; i++) \x7b",
   "      out[i] = f(...args.map((a) => (typeof a === \"number\" ? a : a[i])));",
   "    \x7d",
   "    return out;",
   "  \x7d,",
   "  mul: (a, b) => a * b,",
   "  dot(a, b) \x7b",
   "    if (typeof a === \"number\") return a * b;",
   "    let sum = 0;",
   "    for (let i = 0; i < a.length; i++) sum += a[i] * b[i];",
   "    return sum;",
   "  \x7d,",
   "  distance: (a, b) => Math.abs(a - b),",
   "  radians: (x) => (x * Math.PI) / 180,",
   "  degrees: (x) => (x * 180) / Math.PI,",
   "  atan: (y, x) => (x === undefined ? Math.atan(y) : Math.atan2(y, x)),",
   "  exp2: (x) => 2 ** x,",
   "  inversesqrt: (x) => 1 / Math.sqrt(x),",
   "  fract: (x) => x - Math.floor(x),",
   "  mod: (x, y) => x - y * Math.floor(x / y),",
   "  clamp: (x, lo, hi) => Math.min(Math.max(x, lo), hi),",
   "  mix: (a, b, t) => a * (1 - t) + b * t,",
   "  step: (edge, x) => (x < edge ? 0 : 1),",
   "  smoothstep(e0, e1, x) \x7b",
   "    const t = glsl.clamp((x - e0) / (e1 - e0), 0, 1);",
   "    return t * t * (3 - 2 * t);",
   "  \x7d,",
   "  faceforward(n, i, nref) \x7b",
   "    return glsl.map((a) => (glsl.dot(nref, i) < 0 ? a : -a), n);",
   "  \x7d,",
   "  reflect(i, n) \x7b",
   "    const d = 2 * glsl.dot(n, i);",
   "    return glsl.map((a, b) => a - d * b, i, n);",
   "  \x7d,",
   "  refract(i, n, eta) \x7b",
   "    const d = glsl.dot(n, i);",
   "    const k = 1 - eta * eta * (1 - d * d);",
   "    if (k < 0) return glsl.map(() => 0, i);",
   "    return glsl.map((a, b) => eta * a - (eta * d + Math.sqrt(k)) * b, i, n);",
   "  \x7d,",
   "\x7d;"]

/-- What stands before the items of every script. -/
def preamble : String := String.join (preambleLines.map (· ++ "\n"))

/-- The complete script: the preamble, an empty line, and the items. -/
def Module.scriptText (m : Module) : String := preamble ++ "\n" ++ m.text

end ShaderAlgebra.Script
