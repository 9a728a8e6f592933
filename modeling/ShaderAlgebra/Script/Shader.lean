import ShaderAlgebra.Logged
import ShaderAlgebra.Script.Lowering

/-!
# Shaders as scripts

Functions become exported functions, structs documented object types, constants exported constants
and other globals exported variables, which have a setter if the host provides their value. A script
has one function of a name, so overloaded functions are refused.
-/

namespace ShaderAlgebra

/-! ## Values of variables that have none -/

namespace Ty

mutual

/-- The value that a variable has before it is given one. `named` gives the value of a struct that
is referred to by name. -/
def defaultWith (named : String → Lowered Script.Expr) (node : String) : Ty → Lowered Script.Expr
  | .array base size => do
    return .array (List.replicate size (← defaultWith named node base))
  | .struct name [] => named name
  | .struct _ (member :: members) => do
    return .object (← defaultMembers named node (member :: members))
  | ty =>
    match ty.shape? with
    | some .number => .ok (.int 0)
    | some .boolean => .ok (.bool false)
    | some (.vector size) => .ok (.vectorCall size "create" [])
    | some (.matrix size) => .ok (.matrixCall size "create" [])
    | some .aggregate => .unrepresentable ty node
    | none => .unrepresentable ty node

def defaultMembers (named : String → Lowered Script.Expr) (node : String) :
    List (String × Ty) → Lowered (List (String × Script.Expr))
  | [] => .ok []
  | (name, ty) :: members => do
    let value ← defaultWith named node ty
    return (name, value) :: (← defaultMembers named node members)

end

end Ty

namespace StructTable

/-- The value of a declared struct. References may go `depth` structs deep: a struct that contains
itself has no value. -/
def defaultNamed (structs : StructTable) (node : String) :
    (depth : Nat) → String → Lowered Script.Expr
  | 0, name => .unrepresentable (.struct name []) node
  | depth + 1, name => do
    return .object
      (← Ty.defaultMembers (defaultNamed structs node depth) node ((structs.get? name).getD []))

end StructTable

namespace Ty

/-- The value of a variable of the type before it is given one. An undeclared struct has no members,
and no reference goes deeper than there are structs. -/
def default (structs : StructTable) (ty : Ty) (node : String) : Lowered Script.Expr :=
  ty.defaultWith (structs.defaultNamed node (structs.size + 1)) node

/-- The documented type, which a type that scripts cannot represent does not have. -/
def docType (ty : Ty) (node : String) : Lowered String :=
  match ty.docType? with
  | some docType => .ok docType
  | none => .unrepresentable ty node

/-- The first value of a variable: what it is initialized with, or else its default. -/
def initialValue (structs : StructTable) (ty : Ty) (name : String) (init : Option Expr) :
    Lowered Script.Expr :=
  match init with
  | some init => init.lowerValue structs
  | none => ty.default structs name

end Ty

/-! ## Statements -/

namespace Stmt

mutual

def lower (structs : StructTable) : Stmt → Lowered Script.Stmt
  | .declare name ty init => do
    let _ ← ty.docType name
    return .declare (Script.mangle name) (← ty.initialValue structs name init)
  | .eval expr => do return .eval (← expr.lower structs)
  | .ret value => do return .ret (← value.mapM fun e => e.lowerValue structs)
  | .branch condition accept reject => do
    let condition ← condition.lower structs
    let accept ← lowerAll structs accept
    let reject ← lowerAll structs reject
    return .branch condition accept reject
  | .loop init condition step body => do
    let init ← lowerOption structs init
    let condition ← condition.mapM fun e => e.lower structs
    let step ← step.mapM fun e => e.lower structs
    let body ← lowerAll structs body
    return .loop init condition step body
  | .block body => do return .block (← lowerAll structs body)
  | .leave => .ok .leave
  | .next => .ok .next

def lowerOption (structs : StructTable) : Option Stmt → Lowered (Option Script.Stmt)
  | none => .ok none
  | some s => do return some (← lower structs s)

def lowerAll (structs : StructTable) : List Stmt → Lowered (List Script.Stmt)
  | [] => .ok []
  | s :: ss => do
    let first ← lower structs s
    return first :: (← lowerAll structs ss)

end

end Stmt

/-! ## Variables that are written to -/

namespace Expr

/-- The variable that a chain of fields and indices starts from. -/
def root? : Expr → Option String
  | .ident name _ => some name
  | .field base _ _ => root? base
  | .index base _ _ => root? base
  | _ => none

mutual

/-- The variables that the expression assigns to, whole or in part. -/
def written : Expr → List String
  | .literal .. | .ident .. => []
  | .field base _ _ => written base
  | .index base position _ => written base ++ written position
  | .unary _ operand _ => written operand
  | .binary _ left right _ => written left ++ written right
  | .call _ arguments _ => writtenAll arguments
  | .conditional condition accept reject _ => written condition ++ written accept ++ written reject
  | .assign _ target value _ => target.root?.toList ++ written target ++ written value

def writtenAll : List Expr → List String
  | [] => []
  | e :: es => written e ++ writtenAll es

end

/-- The variables that an expression assigns to, if there is one. -/
def writtenOption : Option Expr → List String
  | none => []
  | some e => e.written

end Expr

namespace Stmt

mutual

/-- The variables that the statement assigns to, whole or in part. -/
def written : Stmt → List String
  | .declare _ _ init => Expr.writtenOption init
  | .eval expr => expr.written
  | .ret value => Expr.writtenOption value
  | .branch condition accept reject =>
    condition.written ++ writtenAll accept ++ writtenAll reject
  | .loop init condition step body =>
    writtenOption init ++ Expr.writtenOption condition ++ Expr.writtenOption step
      ++ writtenAll body
  | .block body => writtenAll body
  | .leave | .next => []

def writtenOption : Option Stmt → List String
  | none => []
  | some s => written s

def writtenAll : List Stmt → List String
  | [] => []
  | s :: ss => written s ++ writtenAll ss

end

end Stmt

/-! ## Functions -/

namespace Parameter

/-- A parameter of a script's function. Only parameters that are passed in have one. -/
def lower (p : Parameter) : Lowered Script.Binding :=
  if p.passing = .input then do
    return ⟨Script.mangle p.name, ← p.ty.docType p.name⟩
  else
    .unsupported (.writtenParameter p.passing)
      (p.passing.text ++ " " ++ p.ty.text ++ " " ++ p.name)

def lowerAll : List Parameter → Lowered (List Script.Binding)
  | [] => .ok []
  | p :: ps => do
    let first ← p.lower
    return first :: (← lowerAll ps)

/-- The statement that gives the function its own copy of an argument. -/
def ownCopy? (p : Parameter) : Option Script.Stmt :=
  let name := Script.Expr.ident (Script.mangle p.name)
  match p.ty.shape? with
  | some .number | some .boolean | none => none
  | some shape => some (.eval (.assign none name (.copy shape name)))

end Parameter

namespace FunctionDef

/-- The script of a function. Arguments that it writes to and that are shared are copied first. -/
def lower (structs : StructTable) (f : FunctionDef) : Logged LoweringError Script.Function := do
  let parameters ← Parameter.lowerAll f.parameters
  let returns ← Logged.ofExcept
    (if f.result = .void then .ok none else (f.result.docType f.name).map some)
  let written := Stmt.writtenAll f.body
  let copies := (f.parameters.filter fun p => written.contains p.name).filterMap Parameter.ownCopy?
  let body ← Stmt.lowerAll structs f.body
  Logged.emit (.loweredFunction f.name)
  return ⟨Script.mangle f.name, parameters, returns, copies ++ body⟩

end FunctionDef

/-! ## Shaders -/

namespace StructDef

def lowerMembers (name : String) : List (String × Ty) → Lowered (List Script.Binding)
  | [] => .ok []
  | (member, ty) :: members => do
    let first ← ty.docType name
    return ⟨member, first⟩ :: (← lowerMembers name members)

end StructDef

namespace GlobalVar

/-- The script of a global. The host provides uniforms and inputs. -/
def lower (structs : StructTable) (g : GlobalVar) : Lowered Script.Item := do
  let docType ← g.ty.docType g.name
  let value ← g.ty.initialValue structs g.name g.init
  let binding := Script.Binding.mk (Script.mangle g.name) docType
  match g.storage with
  | some .const => return .constant binding value
  | some .uniform | some .input => return .global binding value true
  | some .output | none => return .global binding value false

end GlobalVar

namespace Item

def lower (structs : StructTable) : Item → Logged LoweringError Script.Item
  | .struct declaration => do
    return .typedef declaration.name
      (← StructDef.lowerMembers declaration.name declaration.members)
  | .global declaration => Logged.ofExcept (declaration.lower structs)
  | .function definition => do return .function (← definition.lower structs)

def lowerAll (structs : StructTable) : List Item → Logged LoweringError (List Script.Item)
  | [] => pure []
  | item :: items => do
    let first ← item.lower structs
    return first :: (← lowerAll structs items)

end Item

namespace Shader

/-- The first name that a list has twice, where it comes again. -/
def repeatedName? (seen : List String) : List String → Option String
  | [] => none
  | name :: names =>
    if seen.contains name then some name else repeatedName? (name :: seen) names

/-- The declared structs. The last declaration of a name counts. -/
def structTable (shader : Shader) : StructTable :=
  shader.structs.foldl (fun table s => table.set s.name s.members) .empty

/-- The script of a shader. -/
def lower (shader : Shader) : Logged LoweringError Script.Module := do
  match repeatedName? [] (shader.functions.map (·.name)) with
  | some name => throw ⟨.unsupported .overloadedFunction, name⟩
  | none =>
    let items ← Item.lowerAll shader.structTable shader.items
    Logged.emit (.loweredShader items.length)
    return ⟨items⟩

end Shader

end ShaderAlgebra
