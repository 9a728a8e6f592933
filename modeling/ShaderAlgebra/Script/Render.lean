import ShaderAlgebra.Render.Expr
import ShaderAlgebra.Script.Basic
import ShaderAlgebra.Text.Blank
import ShaderAlgebra.Text.Capital

/-!
# Text of scripts

Parentheses stand only where the precedence of the script language asks for them. Blocks are
indented by two spaces, and every item carries its documentation.
-/

namespace ShaderAlgebra.Script

/-! ## Expressions -/

/-- The symbol of an operator: equality is strict. -/
def symbol : BinaryOp → String
  | .equal => "==="
  | .notEqual => "!=="
  | op => op.symbol

/-- How tightly an operator binds. -/
def strengthOf : BinaryOp → Strength
  | .logicalOr => 4
  | .logicalAnd => 5
  | .equal | .notEqual => 9
  | .less | .lessEqual | .greater | .greaterEqual => 10
  | .add | .subtract => 12
  | .multiply | .divide | .modulo => 13

def assignmentStrength : Strength := 2

def conditionalStrength : Strength := 3

def unaryStrength : Strength := 15

def postfixStrength : Strength := 18

def primaryStrength : Strength := 20

namespace Expr

/-- Whether the expression is a number written with a sign. -/
def isSignedNumber : Expr → Bool
  | .number digits => digits.toList.head? = some '-'
  | _ => false

/-- The binding strength of the root. A number with a sign binds like a negation. -/
def strength : Expr → Strength
  | .number digits => if (Expr.number digits).isSignedNumber then unaryStrength else primaryStrength
  | .bool _ | .ident _ | .array _ | .object _ => primaryStrength
  | .member .. | .index .. | .call .. => postfixStrength
  | .unary .. => unaryStrength
  | .binary op _ _ => strengthOf op
  | .conditional .. => conditionalStrength
  | .assign .. => assignmentStrength

/-- Whether a minus in front of the expression would run into its own. -/
def startsWithMinus : Expr → Bool
  | .unary .negate _ => true
  | e => e.isSignedNumber

mutual

/-- The text of an expression. -/
def text : Expr → String
  | .number digits => digits
  | .bool true => "true"
  | .bool false => "false"
  | .ident name => name
  | .member base property =>
    parenthesized (base.strength < postfixStrength) (text base) ++ "." ++ property
  | .index base position =>
    parenthesized (base.strength < postfixStrength) (text base) ++ "[" ++ text position ++ "]"
  | .unary op operand =>
    op.symbol
      ++ parenthesized (op = .negate && operand.startsWithMinus || operand.strength < unaryStrength)
        (text operand)
  | .binary op left right =>
    parenthesized (left.strength < strengthOf op) (text left) ++ " " ++ symbol op ++ " "
      ++ parenthesized (right.strength ≤ strengthOf op) (text right)
  | .conditional condition accept reject =>
    parenthesized (condition.strength ≤ conditionalStrength) (text condition) ++ " ? "
      ++ parenthesized (accept.strength ≤ assignmentStrength) (text accept) ++ " : "
      ++ parenthesized (reject.strength < conditionalStrength) (text reject)
  | .call callee arguments =>
    parenthesized (callee.strength < postfixStrength) (text callee)
      ++ "(" ++ textList arguments ++ ")"
  | .array items => "[" ++ textList items ++ "]"
  | .object [] => "\x7b\x7d"
  | .object (property :: properties) =>
    "\x7b " ++ textProperties (property :: properties) ++ " \x7d"
  | .assign none target value => text target ++ " = " ++ text value
  | .assign (some op) target value => text target ++ " " ++ symbol op ++ "= " ++ text value

/-- Expressions separated by commas. -/
def textList : List Expr → String
  | [] => ""
  | [e] => parenthesized (e.strength ≤ assignmentStrength) (text e)
  | e :: es => parenthesized (e.strength ≤ assignmentStrength) (text e) ++ ", " ++ textList es

/-- Properties separated by commas. -/
def textProperties : List (String × Expr) → String
  | [] => ""
  | [(name, e)] => name ++ ": " ++ parenthesized (e.strength ≤ assignmentStrength) (text e)
  | (name, e) :: rest =>
    name ++ ": " ++ parenthesized (e.strength ≤ assignmentStrength) (text e)
      ++ ", " ++ textProperties rest

end

end Expr

/-! ## Statements -/

/-- The indentation of a block at a depth. -/
def indentation : Nat → String
  | 0 => ""
  | depth + 1 => "  " ++ indentation depth

namespace Stmt

/-- The first part of a loop header. -/
def loopStart : Option Stmt → String
  | some (.declare name init) => "let " ++ name ++ " = " ++ init.text
  | some (.eval expr) => expr.text
  | _ => ""

/-- The header of a loop, up to its opening brace. A loop that has neither an initial statement nor
a step is a `while`. -/
def loopHeader (init : Option Stmt) (condition step : Option Expr) : String :=
  let test := (condition.map Expr.text).getD ""
  match init, step with
  | none, none => "while (" ++ (if test.isEmpty then "true" else test) ++ ") \x7b\n"
  | init, step =>
    "for (" ++ loopStart init ++ "; " ++ test ++ "; " ++ (step.map Expr.text).getD "" ++ ") \x7b\n"

mutual

/-- The lines of a statement at a depth, each with its line feed. -/
def format (depth : Nat) : Stmt → String
  | .declare name init => indentation depth ++ "let " ++ name ++ " = " ++ init.text ++ ";\n"
  | .eval expr => indentation depth ++ expr.text ++ ";\n"
  | .ret (some value) => indentation depth ++ "return " ++ value.text ++ ";\n"
  | .ret none => indentation depth ++ "return;\n"
  | .branch condition accept reject =>
    indentation depth ++ "if (" ++ condition.text ++ ") \x7b\n"
      ++ formatBlock (depth + 1) accept ++ formatElse depth reject
  | .loop init condition step body =>
    indentation depth ++ loopHeader init condition step
      ++ formatBlock (depth + 1) body ++ indentation depth ++ "\x7d\n"
  | .block body =>
    indentation depth ++ "\x7b\n" ++ formatBlock (depth + 1) body ++ indentation depth ++ "\x7d\n"
  | .leave => indentation depth ++ "break;\n"
  | .next => indentation depth ++ "continue;\n"

/-- The lines of a list of statements. -/
def formatBlock (depth : Nat) : List Stmt → String
  | [] => ""
  | s :: ss => format depth s ++ formatBlock depth ss

/-- The end of an `if` from its closing brace on, with the `else` block if there is one. -/
def formatElse (depth : Nat) : List Stmt → String
  | [] => indentation depth ++ "\x7d\n"
  | [.branch condition accept reject] =>
    indentation depth ++ "\x7d else if (" ++ condition.text ++ ") \x7b\n"
      ++ formatBlock (depth + 1) accept ++ formatElse depth reject
  | s :: ss =>
    indentation depth ++ "\x7d else \x7b\n" ++ format (depth + 1) s ++ formatBlock (depth + 1) ss
      ++ indentation depth ++ "\x7d\n"

end

/-- The text of a statement, without the line feed at its end. -/
def text (s : Stmt) : String := Text.trimEnd (format 0 s)

end Stmt

/-! ## Items -/

/-- A documented type in its braces. -/
def braced (docType : String) : String := "\x7b" ++ docType ++ "\x7d"

/-- The name of the function that sets a global. -/
def setterName (name : String) : String := "set" ++ Text.capitalize name

namespace Function

def text (f : Function) : String :=
  "/**\n"
    ++ String.join (f.parameters.map fun p =>
      " * @param " ++ braced p.docType ++ " " ++ p.name ++ "\n")
    ++ (match f.returns with
      | some returns => " * @returns " ++ braced returns ++ "\n"
      | none => "")
    ++ " */\nexport function " ++ f.name ++ "("
    ++ String.intercalate ", " (f.parameters.map (·.name)) ++ ") \x7b\n"
    ++ Stmt.formatBlock 1 f.body ++ "\x7d\n"

end Function

namespace Item

def text : Item → String
  | .typedef name properties =>
    "/**\n * @typedef " ++ braced "Object" ++ " " ++ name ++ "\n"
      ++ String.join (properties.map fun p =>
        " * @property " ++ braced p.docType ++ " " ++ p.name ++ "\n")
      ++ " */\n"
  | .constant binding value =>
    "/** @type " ++ braced binding.docType ++ " */\nexport const " ++ binding.name ++ " = "
      ++ value.text ++ ";\n"
  | .global binding value hasSetter =>
    "/** @type " ++ braced binding.docType ++ " */\nexport let " ++ binding.name ++ " = "
      ++ value.text ++ ";\n"
      ++ (if hasSetter then
          "/** @param " ++ braced binding.docType ++ " value */\nexport function "
            ++ setterName binding.name ++ "(value) \x7b\n  " ++ binding.name ++ " = value;\n\x7d\n"
        else "")
  | .function definition => definition.text

end Item

namespace Module

/-- The items with an empty line between them. -/
def text (m : Module) : String := String.intercalate "\n" (m.items.map Item.text)

end Module

end ShaderAlgebra.Script
