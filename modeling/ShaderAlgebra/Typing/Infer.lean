import ShaderAlgebra.Builtin.Signature
import ShaderAlgebra.Expr.Build
import ShaderAlgebra.Logged
import ShaderAlgebra.Render.Expr
import ShaderAlgebra.Typing.SymbolTable

/-!
# Inference for expressions

`Expr.infer` annotates a tree from its leaves up: it keeps the form of the tree and gives every node
the type that its parts and the symbol table determine. Annotations already in the tree are not
read.
-/

namespace ShaderAlgebra

/-- What is known where an expression stands: the symbols, and the function around it. -/
structure Site where
  symbols : SymbolTable
  function : Option String

namespace Site

/-- The error at a node with the given text. -/
def errorAt (site : Site) (text : String) (fault : TypeFault) : TypeError :=
  ⟨fault, .ofText site.function text⟩

/-- A node built over annotated parts; if the parts do not fit, the error is at `node`. -/
def built (site : Site) (node : Expr) (result : Except NodeError Expr) : Except TypeError Expr :=
  result.mapError fun error => site.errorAt node.text (.badNode error)

end Site

/-! ## Constructors -/

namespace Ty

/-- The number of scalars in all arguments of a constructor, if each has a number. -/
def totalComponents? : List Ty → Option Nat
  | [] => some 0
  | ty :: tys => do return (← ty.componentCount?) + (← totalComponents? tys)

/-- Whether a value of a scalar, vector or matrix type can be constructed from one argument: any
value gives a scalar, a scalar fills a vector or a diagonal, a longer vector is cut, and a matrix is
cut or filled up. -/
def constructsFromOne (ty argument : Ty) : Bool :=
  match ty, argument with
  | .scalar _, _ => true
  | .vector .., .scalar _ => true
  | .vector size _, .vector given _ => size.count ≤ given.count
  | .matrix .., .scalar _ | .matrix .., .matrix .. => true
  | _, _ => false

/-- Checks the arguments of a scalar, vector or matrix constructor. Unless one argument is enough,
the arguments must bring exactly the components that are needed, and none may be a matrix. -/
def construct (ty : Ty) (arguments : List Ty) : Except TypeFault Unit :=
  let arity : TypeFault := .arityMismatch ty.text arguments.length
  let shape : TypeFault := .notConstructible ty.text arguments
  match ty.componentCount? with
  | none => .error shape
  | some wanted =>
    if arguments.isEmpty then .error arity
    else
      match totalComponents? arguments with
      | none => .error shape
      | some total =>
        match ty, arguments with
        | .scalar _, [_] => .ok ()
        | .scalar _, _ => .error arity
        | ty, [argument] =>
          if constructsFromOne ty argument || (!argument.isMatrix && total = wanted) then .ok ()
          else .error shape
        | _, arguments =>
          if !arguments.any isMatrix && total = wanted then .ok () else .error shape

/-- Checks the arguments of a struct constructor, one to a member. -/
def constructStruct (ty : Ty) (arguments : List Ty) : Except TypeFault Unit :=
  match ty with
  | .struct name members =>
    if members.length ≠ arguments.length then .error (.arityMismatch name arguments.length)
    else if (members.zip arguments).all fun ((_, member), argument) => argument.convertsTo member
    then .ok ()
    else .error (.notConstructible name arguments)
  | ty => .error (.unknownFunction ty.text)

end Ty

/-! ## Calls of declared functions -/

namespace Overload

/-- Whether the parameter types are exactly the argument types. -/
def takesExactly (overload : Overload) (arguments : List Ty) : Bool :=
  overload.parameters.map (·.ty) == arguments

/-- Whether every argument converts to its parameter. -/
def takes (overload : Overload) (arguments : List Ty) : Bool :=
  overload.parameters.length == arguments.length
    && (overload.parameters.zip arguments).all fun (p, argument) => argument.convertsTo p.ty

end Overload

namespace Site

/-- The form that a call means: the first that takes the arguments as they are, else the first that
takes them converted. -/
def overloadFor (site : Site) (function : String) (arguments : List Ty) :
    Except TypeFault Overload :=
  let forms := site.symbols.overloads function
  if forms.isEmpty then .error (.unknownFunction function)
  else
    match (forms.find? (·.takesExactly arguments)).or (forms.find? (·.takes arguments)) with
    | some form => .ok form
    | none =>
      if forms.all fun form => form.parameters.length ≠ arguments.length then
        .error (.arityMismatch function arguments.length)
      else .error (.noOverload function arguments)

/-- The first argument that is written to but does not denote storage. -/
def unassignable? : List Parameter → List Expr → Option Expr
  | p :: ps, argument :: arguments =>
    if p.passing ≠ .input && !argument.isLvalue then some argument
    else unassignable? ps arguments
  | _, _ => none

/-- The type of a call with annotated arguments. The name means a type constructor, else a struct
constructor, else a built-in function, else a declared function. -/
def callType (site : Site) (node : Expr) (function : String) (arguments : List Expr) :
    Except TypeError Ty :=
  let types := arguments.map Expr.ty
  let failing {α : Type} (result : Except TypeFault α) : Except TypeError α :=
    result.mapError (site.errorAt node.text)
  match Ty.ofName? function with
  | some ty => failing ((ty.construct types).map fun _ => ty)
  | none =>
    match site.symbols.structType? function with
    | some ty => failing ((ty.constructStruct types).map fun _ => ty)
    | none =>
      match Builtin.ofName? function with
      | some builtin => failing (builtin.resolve types)
      | none => do
        let form ← failing (site.overloadFor function types)
        match unassignable? form.parameters arguments with
        | some argument => .error (site.errorAt argument.text .notAssignable)
        | none => return form.result

end Site

/-! ## Expressions -/

/-- Whether a value of a type may be assigned to storage of another, plainly or with an operator. -/
def Ty.assignableFrom (target : Ty) (op : Option BinaryOp) (value : Ty) : Bool :=
  match op with
  | none => value.convertsTo target
  | some op => op.isCompoundAssignable && Ty.binary? op target value == some target

namespace Site

/-- Checks that an annotated expression is a `bool`. -/
def requireBool (site : Site) (condition : Expr) : Except TypeError Unit :=
  if condition.ty = Ty.bool then .ok ()
  else .error (site.errorAt condition.text (.badCondition condition.ty))

end Site

namespace Expr

mutual

/-- The annotated tree. -/
def infer (site : Site) : Expr → Except TypeError Expr
  | .literal value _ => .ok (ofLiteral value)
  | .ident name _ =>
    match site.symbols.lookup name with
    | some ty => .ok (.ident name ty)
    | none => .error (site.errorAt name (.unknownIdentifier name))
  | .field base name ty => do
    let annotated ← infer site base
    site.built (.field base name ty) (fieldOf annotated name)
  | .index base position ty => do
    let base' ← infer site base
    let position' ← infer site position
    let node := Expr.index base position ty
    if position'.ty = Ty.int then site.built node (indexOf base' position')
    else .error (site.errorAt node.text (.badIndex position'.ty))
  | .unary op operand ty => do
    let operand' ← infer site operand
    site.built (.unary op operand ty) (unaryOf op operand')
  | .binary op left right ty => do
    let left' ← infer site left
    let right' ← infer site right
    site.built (.binary op left right ty) (binaryOf op left' right')
  | .call function arguments ty => do
    let arguments' ← inferAll site arguments
    let result ← site.callType (.call function arguments ty) function arguments'
    return .call function arguments' result
  | .conditional condition accept reject ty => do
    let condition' ← infer site condition
    site.requireBool condition'
    let accept' ← infer site accept
    let reject' ← infer site reject
    site.built (.conditional condition accept reject ty)
      (conditionalOf condition' accept' reject')
  | .assign op target value ty => do
    let node := Expr.assign op target value ty
    let target' ← infer site target
    if !target'.isLvalue then .error (site.errorAt node.text .notAssignable)
    else
      let value' ← infer site value
      if target'.ty.assignableFrom op value'.ty then return .assign op target' value' target'.ty
      else .error (site.errorAt node.text (.badAssignment target'.ty value'.ty))

/-- The annotated trees of a list of arguments. -/
def inferAll (site : Site) : List Expr → Except TypeError (List Expr)
  | [] => .ok []
  | e :: es => do
    let e' ← infer site e
    let es' ← inferAll site es
    return e' :: es'

end

end Expr

end ShaderAlgebra
