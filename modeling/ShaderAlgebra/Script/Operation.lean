import ShaderAlgebra.Script.Library
import ShaderAlgebra.Script.Shape

/-!
# Operations in scripts

The script of an operator, a constructor or a built-in function over operands that are lowered
already. Every function here takes the node that it lowers, for its errors.
-/

namespace ShaderAlgebra

/-- A lowered operand with its shape. -/
structure ShapedExpr where
  shape : Shape
  expr : Script.Expr

namespace Script

open ShaderAlgebra.Script.Expr (callOf vectorCall matrixCall vectorOut matrixOut splat reciprocal
  dimension component)

/-! ## Operators -/

/-- The operator of numbers that computes a step of arithmetic: what is none of the first four is a
remainder. -/
def arithmeticOp : BinaryOp → BinaryOp
  | .add => .add
  | .subtract => .subtract
  | .multiply => .multiply
  | .divide => .divide
  | _ => .modulo

/-- The library's name of a component-wise operation. -/
def componentName? : BinaryOp → Option String
  | .add => some "add"
  | .subtract => some "subtract"
  | .multiply => some "multiply"
  | .divide => some "divide"
  | _ => none

def vectorWithNumber (node : ShaderAlgebra.Expr) (op : BinaryOp) (size : Dim) (l r : Expr) :
    Lowered Expr :=
  match op with
  | .multiply => .ok (vectorOut size "scale" [l, r])
  | .divide => .ok (vectorOut size "scale" [l, reciprocal r])
  | .add => .ok (vectorOut size "add" [l, splat size r])
  | .subtract => .ok (vectorOut size "subtract" [l, splat size r])
  | op => .unsupported (.operator op) node.text

def numberWithVector (node : ShaderAlgebra.Expr) (op : BinaryOp) (size : Dim) (l r : Expr) :
    Lowered Expr :=
  match op with
  | .multiply => .ok (vectorOut size "scale" [r, l])
  | .add => .ok (vectorOut size "add" [splat size l, r])
  | .subtract => .ok (vectorOut size "subtract" [splat size l, r])
  | .divide => .ok (vectorOut size "divide" [splat size l, r])
  | op => .unsupported (.operator op) node.text

def matrixWithNumber (node : ShaderAlgebra.Expr) (op : BinaryOp) (size : Dim) (l r : Expr) :
    Lowered Expr :=
  match op with
  | .multiply => .ok (matrixOut size "multiplyScalar" [l, r])
  | .divide => .ok (matrixOut size "multiplyScalar" [l, reciprocal r])
  | op => .unsupported (.matrixScalar op) node.text

def matrices (node : ShaderAlgebra.Expr) (op : BinaryOp) (size : Dim) (l r : Expr) :
    Lowered Expr :=
  match op with
  | .add => .ok (matrixOut size "add" [l, r])
  | .subtract => .ok (matrixOut size "subtract" [l, r])
  | .multiply => .ok (matrixOut size "multiply" [l, r])
  | _ => .unsupported .matrixDivision node.text

/-- The image of a vector under a matrix. -/
def transform (size : Dim) (vector matrix : Expr) : Expr :=
  vectorOut size ("transformMat" ++ size.text) [vector, matrix]

/-- One of the five arithmetic operators. The quotient of integers is cut to an integer. -/
def arithmetic (node : ShaderAlgebra.Expr) (op : BinaryOp) (left right : ShapedExpr) :
    Lowered Expr :=
  let l := left.expr
  let r := right.expr
  match left.shape, right.shape with
  | .number, .number =>
    let value := Expr.binary (arithmeticOp op) l r
    if op = .divide && node.ty = .int then .ok (callOf "Math.trunc" [value]) else .ok value
  | .vector size, .vector _ =>
    match componentName? op with
    | some name => .ok (vectorOut size name [l, r])
    | none => .unsupported (.operatorOnOperands op) node.text
  | .vector size, .number => vectorWithNumber node op size l r
  | .number, .vector size => numberWithVector node op size l r
  | .matrix size, .vector _ =>
    if op = .multiply then .ok (transform size r l)
    else .unsupported (.operatorOnOperands op) node.text
  | .vector size, .matrix _ =>
    if op = .multiply then .ok (transform size l (matrixOut size "transpose" [r]))
    else .unsupported (.operatorOnOperands op) node.text
  | .matrix size, .matrix _ => matrices node op size l r
  | .matrix size, .number => matrixWithNumber node op size l r
  | .number, .matrix size =>
    if op = .multiply then .ok (matrixOut size "multiplyScalar" [r, l])
    else .unsupported (.operatorOnOperands op) node.text
  | _, _ => .unsupported (.operatorOnOperands op) node.text

/-- Whether two values are equal. -/
def equality (node : ShaderAlgebra.Expr) (op : BinaryOp) (left : ShapedExpr) (r : Expr) :
    Lowered Expr :=
  let l := left.expr
  let signed (equal : Expr) : Expr := if op = .equal then equal else .unary .not equal
  match left.shape with
  | .number | .boolean => .ok (.binary op l r)
  | .vector size => .ok (signed (vectorCall size "exactEquals" [l, r]))
  | .matrix size => .ok (signed (matrixCall size "exactEquals" [l, r]))
  | .aggregate => .unsupported .aggregateComparison node.text

/-- A binary operator. -/
def binaryOf (node : ShaderAlgebra.Expr) (op : BinaryOp) (left right : ShapedExpr) : Lowered Expr :=
  match op with
  | .logicalAnd | .logicalOr | .less | .lessEqual | .greater | .greaterEqual =>
    .ok (.binary op left.expr right.expr)
  | .equal | .notEqual => equality node op left right.expr
  | .add | .subtract | .multiply | .divide | .modulo => arithmetic node op left right

def unaryOf (op : UnaryOp) (operand : ShapedExpr) : Expr :=
  match op, operand.shape with
  | .not, _ => .unary .not operand.expr
  | .negate, .vector size => vectorOut size "negate" [operand.expr]
  | .negate, .matrix size => matrixOut size "multiplyScalar" [operand.expr, .int (-1)]
  | .negate, _ => .unary .negate operand.expr

/-- Reads components of a vector. -/
def readSwizzle (vector : Expr) (pattern : List Component) : Expr :=
  match pattern with
  | [c] => .index vector (component c)
  | pattern => callOf "glsl.swizzle" (vector :: pattern.map component)

/-- Writes components of a vector. -/
def writeSwizzle (vector : Expr) (pattern : List Component) (value : Expr) : Expr :=
  match pattern with
  | [c] => .assign none (.index vector (component c)) value
  | pattern => callOf "glsl.assignSwizzle" [vector, .array (pattern.map component), value]

/-! ## Constructors -/

/-- A scalar of one kind made from a scalar of another. -/
def convertScalar (target source : Option Kind) (value : Expr) : Expr :=
  match target, source with
  | some .bool, some .bool => value
  | some .bool, _ => .binary .notEqual value (.int 0)
  | _, some .bool => .conditional value (.int 1) (.int 0)
  | some .int, some .float => callOf "Math.trunc" [value]
  | _, _ => value

/-- A scalar made from a value: of a vector or a matrix its first component is taken. -/
def constructScalar (target source : Option Kind) (shape : Shape) (value : Expr) : Expr :=
  match shape with
  | .vector _ | .matrix _ => convertScalar target source (.index value (.int 0))
  | _ => convertScalar target source value

def constructVector (size : Dim) (shapes : List Shape) (values : List Expr) : Expr :=
  match shapes, values with
  | [.number], [value] => splat size value
  | [.vector source], [value] =>
    if source = size then .copy (.vector size) value
    else callOf "glsl.vector" [dimension size, value]
  | shapes, values =>
    if shapes.length = size.count && shapes.all (· = .number) then
      vectorCall size "fromValues" values
    else callOf "glsl.vector" (dimension size :: values)

def constructMatrix (size : Dim) (shapes : List Shape) (values : List Expr) : Expr :=
  match shapes, values with
  | [.number], [value] => callOf "glsl.matrix" [dimension size, value]
  | [.matrix source], [value] =>
    if source = size then .copy (.matrix size) value
    else callOf "glsl.resize" [dimension size, dimension source, value]
  | shapes, values =>
    if shapes.length = size.count * size.count && shapes.all (· = .number) then
      matrixCall size "fromValues" values
    else callOf "glsl.matrix" (dimension size :: values)

/-- A call of the constructor of a type. `values` are the lowered arguments. -/
def construct (node : ShaderAlgebra.Expr) (ty : Ty) (arguments : List ShaderAlgebra.Expr)
    (values : Unit → Lowered (List Expr)) : Lowered Expr := do
  let shapes ← ShaderAlgebra.Expr.shapes arguments
  let values ← values ()
  match ty.shape? with
  | some (.vector size) => return constructVector size shapes values
  | some (.matrix size) => return constructMatrix size shapes values
  | some .aggregate => .unsupported (.constructor ty) node.text
  | some _ =>
    match arguments, shapes, values with
    | [argument], [shape], [value] =>
      return constructScalar ty.kind? argument.ty.kind? shape value
    | _, _, _ => .unsupported (.constructor ty) node.text
  | none => .unrepresentable ty node.text

/-! ## Built-in functions -/

/-- The shape that decides how a built-in function is called: that of the first matrix, else of the
first vector, else a number. -/
def operandShape (shapes : List Shape) : Shape :=
  let isMatrix : Shape → Bool := fun
    | .matrix _ => true
    | _ => false
  let isVector : Shape → Bool := fun
    | .vector _ => true
    | _ => false
  ((shapes.find? isMatrix).or (shapes.find? isVector)).getD .number

/-- The call of a built-in function for operands of a shape. -/
def Library.call? (library : Library) : Shape → Option LibraryCall
  | .matrix _ => library.matrix
  | .vector _ => library.vector
  | _ => library.scalar

/-- Numbers among the arguments of a vector operation become vectors. -/
def widened (size : Dim) (shapes : List Shape) (values : List Expr) : List Expr :=
  List.zipWith (fun shape value => if shape = .number then splat size value else value)
    shapes values

/-- A call of a built-in function. `values` are the lowered arguments. -/
def builtinCall (node : ShaderAlgebra.Expr) (builtin : Builtin)
    (arguments : List ShaderAlgebra.Expr) (values : Unit → Lowered (List Expr)) : Lowered Expr := do
  let shapes ← ShaderAlgebra.Expr.shapes arguments
  let operand := operandShape shapes
  match (Library.of builtin).call? operand with
  | none => throw ⟨.unmappedBuiltin builtin, node.text⟩
  | some call =>
    let values ← values ()
    match call, operand with
    | .function path, _ => return callOf path values
    | .map path, _ => return callOf "glsl.map" (.ident path :: values)
    | .vectorOut name, .vector size => return vectorOut size name (widened size shapes values)
    | .vectorValue name, .vector size => return vectorCall size name values
    | .matrixOut name, .matrix size => return matrixOut size name values
    | .matrixValue name, .matrix size => return matrixCall size name values
    | _, _ => throw ⟨.unmappedBuiltin builtin, node.text⟩

end Script

end ShaderAlgebra
