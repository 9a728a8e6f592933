import ShaderAlgebra.Bindings
import ShaderAlgebra.Shader

/-!
# The symbol table

Variables are declared in frames. Each frame has a parent, the frame that was current when it was
opened, and frames are never dropped: closing a scope only makes the parent current again. So the
number of a frame stays good for the life of the table, and `lookupFrom` can ask what a name meant
there.

Beside the variables the table knows the forms of the declared functions and the declared structs.
-/

namespace ShaderAlgebra

structure Frame where
  parent : Option Nat
  symbols : Bindings Ty
deriving Repr

/-- One form of a declared function. -/
structure Overload where
  parameters : List Parameter
  result : Ty
deriving DecidableEq, Repr

structure SymbolTable where
  frames : Array Frame
  /-- The number of the innermost open frame. -/
  current : Nat
  functions : Bindings (List Overload)
  structs : Bindings Ty
deriving Repr

namespace SymbolTable

/-- The table with the global frame and nothing in it. -/
def empty : SymbolTable := ⟨#[⟨none, .empty⟩], 0, .empty, .empty⟩

/-! ## Scopes -/

/-- Opens a frame inside the current one. -/
def pushScope (table : SymbolTable) : SymbolTable :=
  { table with
    frames := table.frames.push ⟨some table.current, .empty⟩
    current := table.frames.size }

/-- Makes the parent of the current frame current. The global frame stays open. -/
def popScope (table : SymbolTable) : SymbolTable :=
  match table.frames[table.current]? with
  | some ⟨some parent, _⟩ => { table with current := parent }
  | _ => table

/-! ## Variables -/

/-- Declares a name in the current frame. Also gives the type that the name had in that frame. -/
def declare (table : SymbolTable) (name : String) (ty : Ty) : Option Ty × SymbolTable :=
  let previous := table.frames[table.current]?.bind fun frame => frame.symbols.get? name
  let frames := table.frames.modify table.current fun frame =>
    { frame with symbols := frame.symbols.set name ty }
  (previous, { table with frames := frames })

/-- The table with a list of names declared in the current frame. -/
def declareAll (table : SymbolTable) : List (String × Ty) → SymbolTable
  | [] => table
  | (name, ty) :: rest => (table.declare name ty).2.declareAll rest

/-- Looks a name up in at most `steps` frames, from the given one outwards. -/
def walk (table : SymbolTable) (name : String) : (steps : Nat) → (frame : Nat) → Option Ty
  | 0, _ => none
  | steps + 1, number =>
    match table.frames[number]? with
    | none => none
    | some frame =>
      match frame.symbols.get? name, frame.parent with
      | some ty, _ => some ty
      | none, some parent => table.walk name steps parent
      | none, none => none

/-- What a name means in the given frame. A walk outwards meets no frame twice, so it takes no more
steps than there are frames. -/
def lookupFrom (table : SymbolTable) (frame : Nat) (name : String) : Option Ty :=
  table.walk name table.frames.size frame

/-- What a name means in the current frame. -/
def lookup (table : SymbolTable) (name : String) : Option Ty :=
  table.lookupFrom table.current name

/-! ## Functions -/

/-- The forms of the function with the given name, in order of declaration. -/
def overloads (table : SymbolTable) (name : String) : List Overload :=
  (table.functions.get? name).getD []

/-- Declares a form of a function. A form that is already there is not declared twice. -/
def declareFunction (table : SymbolTable) (name : String) (overload : Overload) : SymbolTable :=
  let known := table.overloads name
  let forms := if known.contains overload then known else known ++ [overload]
  { table with functions := table.functions.set name forms }

/-! ## Structs -/

/-- The type of the declared struct with the given name. -/
def structType? (table : SymbolTable) (name : String) : Option Ty := table.structs.get? name

mutual

/-- The type with its references by name replaced by the declared structs, also in array elements
and struct members. -/
def resolve (table : SymbolTable) : Ty → Ty
  | .struct name members =>
    if members.isEmpty then (table.structType? name).getD (.struct name members)
    else .struct name (resolveMembers table members)
  | .array base size => .array (resolve table base) size
  | ty => ty

def resolveMembers (table : SymbolTable) : List (String × Ty) → List (String × Ty)
  | [] => []
  | (name, ty) :: members => (name, resolve table ty) :: resolveMembers table members

end

def declareStruct (table : SymbolTable) (declaration : StructDef) : SymbolTable :=
  { table with
    structs := table.structs.set declaration.name (table.resolve declaration.ty) }

/-- The form that a function definition declares, with its types resolved. -/
def overloadOf (table : SymbolTable) (f : FunctionDef) : Overload :=
  { parameters := f.parameters.map fun p => { p with ty := table.resolve p.ty }
    result := table.resolve f.result }

end SymbolTable

end ShaderAlgebra
