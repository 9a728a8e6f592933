import ShaderAlgebra.Bindings
import ShaderAlgebra.Expr.Build
import ShaderAlgebra.Script.Name
import ShaderAlgebra.Script.Operation

/-!
# Expressions as scripts

Shaders copy values and scripts share them, so a value that stands in a variable is copied when it
goes into another (`Expr.lowerValue`). An assignment writes to a place: a variable, a member, an
element, components of a vector or a column of a matrix.
-/

namespace ShaderAlgebra

/-- The members of the declared structs. -/
abbrev StructTable := Bindings (List (String × Ty))

namespace StructTable

/-- The members of a struct type: those of the declaration if the type is a reference by name. -/
def membersOf (structs : StructTable) (name : String) (members : List (String × Ty)) :
    List (String × Ty) :=
  if members.isEmpty then (structs.get? name).getD [] else members

end StructTable

namespace Script.Expr

def ofLiteral : Literal → Script.Expr
  | .bool value => .bool value
  | .int value => .int value.toInt
  | .float value => .float value

end Script.Expr

namespace Expr

/-- Whether reading the expression makes a new value although it denotes storage. -/
def isFresh : Expr → Bool
  | .field base _ _ => base.ty.isVector
  | .index base _ _ => base.ty.isMatrix
  | _ => false

/-- The lowered value for use in a new variable: copied if it would share storage with another. -/
def stored (e : Expr) (lowered : Script.Expr) : Lowered Script.Expr :=
  if !e.isLvalue || e.isFresh then .ok lowered
  else do return .copy (← e.shape) lowered

/-- Whether a compound assignment is one of the script too: both sides are numbers, and no
integer quotient has to be cut. -/
def isNativeAssignment (op : Option BinaryOp) (target value : Expr) : Lowered Bool := do
  if (← target.shape) = .number then
    if (← value.shape) = .number then
      return (target.swizzle?.all fun s => s.length = 1)
        && !(op = some .divide && target.ty = .int)
    else return false
  else return false

/-- The place of an element of a matrix in its list of numbers. -/
def matrixElement? (size : Dim) (column row : Expr) : Option Script.Expr :=
  match column.literal?, row.literal? with
  | some (.int c), some (.int r) => some (.int (c.toInt * size.count + r.toInt))
  | _, _ => none

mutual

/-- The script of an expression. -/
def lower (structs : StructTable) : Expr → Lowered Script.Expr
  | .literal value ty => do
    (Expr.literal value ty).representable
    return .ofLiteral value
  | .ident name ty => do
    (Expr.ident name ty).representable
    return .ident (Script.mangle name)
  | .field base name ty => do
    (Expr.field base name ty).representable
    let object ← lower structs base
    if base.ty.isVector then
      match Swizzle.parse name with
      | .ok swizzle => return Script.readSwizzle object swizzle.pattern
      | .error error => .unsupported (.badNode error) (Expr.field base name ty).text
    else return .member object name
  | .index base position ty => do
    (Expr.index base position ty).representable
    let object ← lower structs base
    let index ← lower structs position
    match ← base.shape with
    | .matrix size => return .callOf "glsl.column" [object, .dimension size, index]
    | _ => return .index object index
  | .unary op operand ty => do
    (Expr.unary op operand ty).representable
    let value ← lower structs operand
    return Script.unaryOf op ⟨← operand.shape, value⟩
  | .binary op left right ty => do
    (Expr.binary op left right ty).representable
    let leftShape ← left.shape
    let rightShape ← right.shape
    let l ← lower structs left
    let r ← lower structs right
    Script.binaryOf (.binary op left right ty) op ⟨leftShape, l⟩ ⟨rightShape, r⟩
  | .call function arguments ty => do
    (Expr.call function arguments ty).representable
    match Ty.ofName? function with
    | some constructed =>
      Script.construct (.call function arguments ty) constructed arguments
        fun _ => lowerAll structs arguments
    | none =>
      match Builtin.ofName? function with
      | some builtin =>
        Script.builtinCall (.call function arguments ty) builtin arguments
          fun _ => lowerAll structs arguments
      | none =>
        match ty with
        | .struct name members =>
          if name = function then
            let names := (structs.membersOf name members).map Prod.fst
            return .object (← lowerMembers structs names arguments)
          else return .callOf (Script.mangle function) (← lowerAll structs arguments)
        | _ => return .callOf (Script.mangle function) (← lowerAll structs arguments)
  | .conditional condition accept reject ty => do
    (Expr.conditional condition accept reject ty).representable
    let test ← lower structs condition
    let accepted ← accept.stored (← lower structs accept)
    let rejected ← reject.stored (← lower structs reject)
    return .conditional test accepted rejected
  | .assign op target value ty => do
    (Expr.assign op target value ty).representable
    let isNative ← isNativeAssignment op target value
    let node := (Expr.assign op target value ty).text
    let whole (_ : Unit) : Lowered Script.Expr := place structs target
    let store (stored : Script.Expr) : Lowered Script.Expr := do
      match target with
      | .field base name _ =>
        if base.ty.isVector then
          match Swizzle.parse name with
          | .ok swizzle =>
            return Script.writeSwizzle (← place structs base) swizzle.pattern stored
          | .error error => .unsupported (.badNode error) node
        else return .assign none (← whole ()) stored
      | .index base position _ =>
        if base.ty.isMatrix then
          match ← base.shape with
          | .matrix size =>
            let matrix ← place structs base
            let column ← lower structs position
            return .callOf "glsl.setColumn" [matrix, .dimension size, column, stored]
          | _ => .unrepresentable base.ty node
        else return .assign none (← whole ()) stored
      | _ => return .assign none (← whole ()) stored
    match op with
    | none => store (← value.stored (← lower structs value))
    | some op =>
      if isNative then
        let written ← whole ()
        return .assign (some (Script.arithmeticOp op)) written (← lower structs value)
      else
        match Expr.binaryOf op target value with
        | .error error => .unsupported (.badNode error) node
        | .ok combined =>
          combined.representable
          let targetShape ← target.shape
          let valueShape ← value.shape
          let l ← lower structs target
          let r ← lower structs value
          store (← Script.binaryOf combined op ⟨targetShape, l⟩ ⟨valueShape, r⟩)

/-- The scripts of a list of expressions. -/
def lowerAll (structs : StructTable) : List Expr → Lowered (List Script.Expr)
  | [] => .ok []
  | e :: es => do
    let first ← lower structs e
    return first :: (← lowerAll structs es)

/-- The properties of an object, as far as there are names and values. -/
def lowerMembers (structs : StructTable) :
    List String → List Expr → Lowered (List (String × Script.Expr))
  | name :: names, e :: es => do
    let value ← e.stored (← lower structs e)
    return (name, value) :: (← lowerMembers structs names es)
  | _, _ => .ok []

/-- The place that an expression denotes, if that is one variable, member or element. -/
def place (structs : StructTable) : Expr → Lowered Script.Expr
  | .ident name _ => .ok (.ident (Script.mangle name))
  | .field base name ty => do
    if base.ty.isVector then
      match (Swizzle.parse? name).map (·.pattern) with
      | some [c] => return .index (← place structs base) (.component c)
      | _ => .unsupported .swizzleWrite (Expr.field base name ty).text
    else return .member (← place structs base) name
  | .index (.index matrix column columnTy) position ty => do
    if matrix.ty.isMatrix then
      match matrix.ty.shape? with
      | some (.matrix size) =>
        let element ←
          match matrixElement? size column position with
          | some element => pure element
          | none => do
            let c ← lower structs column
            let r ← lower structs position
            pure (.binary .add (.binary .multiply c (.dimension size)) r)
        return .index (← place structs matrix) element
      | _ =>
        .unrepresentable matrix.ty (Expr.index (.index matrix column columnTy) position ty).text
    else if columnTy.isMatrix then
      .unsupported .columnStorage (Expr.index (.index matrix column columnTy) position ty).text
    else
      let object ← place structs (.index matrix column columnTy)
      return .index object (← lower structs position)
  | .index base position ty => do
    if base.ty.isMatrix then .unsupported .columnStorage (Expr.index base position ty).text
    else
      let object ← place structs base
      return .index object (← lower structs position)
  | e => .unsupported .assignmentTarget e.text

end

/-- The script of an expression whose value goes into a new variable. -/
def lowerValue (structs : StructTable) (e : Expr) : Lowered Script.Expr := do
  e.stored (← e.lower structs)

end Expr

end ShaderAlgebra
