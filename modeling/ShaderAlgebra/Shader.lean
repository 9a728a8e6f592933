import ShaderAlgebra.Stmt

/-!
# Shaders

A shader is a list of items in source order: struct declarations, global variables and functions.
-/

namespace ShaderAlgebra

/-- How an argument is passed: copied in, copied out, or both. -/
inductive Passing where
  | input
  | output
  | inout
deriving DecidableEq, Repr

structure Parameter where
  name : String
  ty : Ty
  passing : Passing
deriving DecidableEq, Repr

structure FunctionDef where
  name : String
  parameters : List Parameter
  result : Ty
  body : List Stmt
deriving Repr

/-- Where a global variable lives. -/
inductive Storage where
  | const
  | uniform
  | input
  | output
deriving DecidableEq, Repr

structure GlobalVar where
  name : String
  ty : Ty
  storage : Option Storage
  init : Option Expr
deriving Repr

structure StructDef where
  name : String
  members : List (String × Ty)
deriving DecidableEq, Repr

inductive Item where
  | struct (declaration : StructDef)
  | global (declaration : GlobalVar)
  | function (definition : FunctionDef)
deriving Repr

/-- A whole program: its items in source order. -/
structure Shader where
  items : List Item
deriving Repr

namespace Passing

def text : Passing → String
  | .input => "in"
  | .output => "out"
  | .inout => "inout"

end Passing

namespace Storage

def text : Storage → String
  | .const => "const"
  | .uniform => "uniform"
  | .input => "in"
  | .output => "out"

end Storage

namespace FunctionDef

/-- The type of the function. -/
def signature (f : FunctionDef) : Ty := .function (f.parameters.map (·.ty)) f.result

/-- The first parameter with the given name. -/
def parameter? (f : FunctionDef) (name : String) : Option Parameter :=
  f.parameters.find? fun parameter => parameter.name == name

end FunctionDef

namespace StructDef

/-- The type that the declaration introduces. -/
def ty (s : StructDef) : Ty := .struct s.name s.members

end StructDef

namespace Shader

def functions (shader : Shader) : List FunctionDef :=
  shader.items.filterMap fun
    | .function f => some f
    | _ => none

def structs (shader : Shader) : List StructDef :=
  shader.items.filterMap fun
    | .struct s => some s
    | _ => none

def globals (shader : Shader) : List GlobalVar :=
  shader.items.filterMap fun
    | .global g => some g
    | _ => none

/-- The first function with the given name. -/
def function? (shader : Shader) (name : String) : Option FunctionDef :=
  shader.functions.find? fun f => f.name == name

end Shader

end ShaderAlgebra
