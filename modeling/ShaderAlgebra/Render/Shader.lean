import ShaderAlgebra.Render.Expr
import ShaderAlgebra.Shader
import ShaderAlgebra.Text.Blank

/-!
# Text of statements and shaders

A simple statement takes one line; blocks are indented by four spaces. An `else` block that holds
one `if` and nothing else is written as `else if`. A loop with nothing but a condition is written as
`while`.
-/

namespace ShaderAlgebra

/-- The indentation of a nested block. -/
def blockIndent : Nat := 4

def spaces (count : Nat) : String := String.ofList (List.replicate count ' ')

/-- A declaration of a name: the size of an array stands behind the name. -/
def declarator (ty : Ty) (name : String) : String :=
  match ty with
  | .array base size => base.text ++ " " ++ name ++ "[" ++ toString size ++ "]"
  | ty => ty.text ++ " " ++ name

namespace Stmt

/-- The line of a declaration or an expression statement. -/
def simpleLine? : Stmt → Option String
  | .declare name ty (some init) => some (declarator ty name ++ " = " ++ init.text ++ ";")
  | .declare name ty none => some (declarator ty name ++ ";")
  | .eval expr => some (expr.text ++ ";")
  | _ => none

/-- The header of a loop, up to its opening brace. Blanks at the end of the header are dropped. -/
def loopHeader (init : Option Stmt) (condition step : Option Expr) : String :=
  match init, condition, step with
  | none, some condition, none => "while (" ++ condition.text ++ ") \x7b\n"
  | init, condition, step =>
    let start := (init.bind simpleLine?).getD ";"
    let parts := "for (" ++ start ++ " " ++ (condition.map Expr.text).getD "" ++ "; "
      ++ (step.map Expr.text).getD ""
    Text.trimEnd parts ++ ") \x7b\n"

mutual

/-- The lines of a statement at an indentation, each with its line feed. -/
def format (indent : Nat) : Stmt → String
  | .declare name ty init =>
    spaces indent ++ ((Stmt.declare name ty init).simpleLine?.getD "") ++ "\n"
  | .eval expr => spaces indent ++ expr.text ++ ";\n"
  | .ret (some value) => spaces indent ++ "return " ++ value.text ++ ";\n"
  | .ret none => spaces indent ++ "return;\n"
  | .branch condition accept reject =>
    spaces indent ++ "if (" ++ condition.text ++ ") \x7b\n"
      ++ formatBlock (indent + blockIndent) accept ++ formatElse indent reject
  | .loop init condition step body =>
    spaces indent ++ loopHeader init condition step
      ++ formatBlock (indent + blockIndent) body ++ spaces indent ++ "\x7d\n"
  | .block body =>
    spaces indent ++ "\x7b\n" ++ formatBlock (indent + blockIndent) body
      ++ spaces indent ++ "\x7d\n"
  | .leave => spaces indent ++ "break;\n"
  | .next => spaces indent ++ "continue;\n"

/-- The lines of a list of statements. -/
def formatBlock (indent : Nat) : List Stmt → String
  | [] => ""
  | s :: ss => format indent s ++ formatBlock indent ss

/-- The end of an `if` from its closing brace on, with the `else` block if there is one. -/
def formatElse (indent : Nat) : List Stmt → String
  | [] => spaces indent ++ "\x7d\n"
  | [.branch condition accept reject] =>
    spaces indent ++ "\x7d else if (" ++ condition.text ++ ") \x7b\n"
      ++ formatBlock (indent + blockIndent) accept ++ formatElse indent reject
  | s :: ss =>
    spaces indent ++ "\x7d else \x7b\n" ++ format (indent + blockIndent) s
      ++ formatBlock (indent + blockIndent) ss ++ spaces indent ++ "\x7d\n"

end

/-- The text of a statement, without the line feed at its end. -/
def text (s : Stmt) : String := Text.trimEnd (format 0 s)

end Stmt

namespace Parameter

def text (p : Parameter) : String :=
  match p.passing with
  | .input => declarator p.ty p.name
  | passing => passing.text ++ " " ++ declarator p.ty p.name

end Parameter

namespace FunctionDef

def text (f : FunctionDef) : String :=
  f.result.text ++ " " ++ f.name ++ "("
    ++ String.intercalate ", " (f.parameters.map Parameter.text) ++ ") \x7b\n"
    ++ Stmt.formatBlock blockIndent f.body ++ "\x7d\n"

end FunctionDef

namespace StructDef

def text (s : StructDef) : String :=
  "struct " ++ s.name ++ " \x7b\n"
    ++ String.join (s.members.map fun (name, ty) =>
      spaces blockIndent ++ declarator ty name ++ ";\n")
    ++ "\x7d;\n"

end StructDef

namespace GlobalVar

def text (g : GlobalVar) : String :=
  (match g.storage with
    | some storage => storage.text ++ " "
    | none => "")
  ++ declarator g.ty g.name
  ++ (match g.init with
    | some init => " = " ++ init.text
    | none => "")
  ++ ";\n"

end GlobalVar

namespace Item

def text : Item → String
  | .struct declaration => declaration.text
  | .global declaration => declaration.text
  | .function definition => definition.text

end Item

namespace Shader

/-- The source text, with an empty line between items. -/
def text (shader : Shader) : String := String.intercalate "\n" (shader.items.map Item.text)

end Shader

end ShaderAlgebra
