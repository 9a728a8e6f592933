import ShaderAlgebra.Render.Expr
import ShaderAlgebra.Script.Basic
import ShaderAlgebra.Script.Error

/-!
# Shapes

What stands for a value of a shader in a script. Numbers and booleans are themselves, vectors of
floats and square matrices are values of the vector library, and arrays and structs are plain arrays
and objects. Other types have no shape.
-/

namespace ShaderAlgebra

inductive Shape where
  | number
  | boolean
  | vector (size : Dim)
  | matrix (size : Dim)
  /-- An array or an object. -/
  | aggregate
deriving DecidableEq, Repr

namespace Ty

def shape? : Ty → Option Shape
  | .scalar .bool => some .boolean
  | .scalar _ => some .number
  | .vector size .float => some (.vector size)
  | .matrix columns rows => if columns = rows then some (.matrix columns) else none
  | .array base _ => (shape? base).map fun _ => .aggregate
  | .struct .. => some .aggregate
  | _ => none

/-- The type in the documentation of a script. -/
def docType? : Ty → Option String
  | .array base _ => (docType? base).map fun element => "Array<" ++ element ++ ">"
  | .struct name _ => some name
  | ty =>
    match ty.shape? with
    | some .number => some "number"
    | some .boolean => some "boolean"
    | some _ => some ty.text
    | none => none

end Ty

namespace Expr

/-- The shape of the value. -/
def shape (e : Expr) : Lowered Shape :=
  match e.ty.shape? with
  | some shape => .ok shape
  | none => .unrepresentable e.ty e.text

/-- Requires that the value has a shape, or that there is no value. -/
def representable (e : Expr) : Lowered Unit :=
  if e.ty = .void then .ok () else e.shape.map fun _ => ()

def shapes : List Expr → Lowered (List Shape)
  | [] => .ok []
  | e :: es => do
    let first ← e.shape
    return first :: (← shapes es)

end Expr

namespace Script

/-- The part of the library for vectors of that size. -/
def vectorPath (size : Dim) (name : String) : String := "vec" ++ size.text ++ "." ++ name

/-- The part of the library for matrices of that size. -/
def matrixPath (size : Dim) (name : String) : String := "mat" ++ size.text ++ "." ++ name

namespace Expr

def dimension (size : Dim) : Expr := .int size.count

def component (c : Component) : Expr := .int c.index

def vectorCall (size : Dim) (name : String) (arguments : List Expr) : Expr :=
  .callOf (vectorPath size name) arguments

def matrixCall (size : Dim) (name : String) (arguments : List Expr) : Expr :=
  .callOf (matrixPath size name) arguments

/-- A vector operation that writes to a new vector. -/
def vectorOut (size : Dim) (name : String) (arguments : List Expr) : Expr :=
  vectorCall size name (vectorCall size "create" [] :: arguments)

/-- A matrix operation that writes to a new matrix. -/
def matrixOut (size : Dim) (name : String) (arguments : List Expr) : Expr :=
  matrixCall size name (matrixCall size "create" [] :: arguments)

/-- A vector of equal components. -/
def splat (size : Dim) (value : Expr) : Expr := .callOf "glsl.splat" [dimension size, value]

/-- One over a number. -/
def reciprocal (value : Expr) : Expr := .binary .divide (.int 1) value

/-- A new copy of a value of the given shape. Numbers and booleans need none. -/
def copy (shape : Shape) (value : Expr) : Expr :=
  match shape with
  | .vector size => vectorCall size "clone" [value]
  | .matrix size => matrixCall size "clone" [value]
  | .aggregate => .callOf "structuredClone" [value]
  | .number | .boolean => value

end Expr

end Script

end ShaderAlgebra
