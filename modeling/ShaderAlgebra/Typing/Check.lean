import ShaderAlgebra.Render.Shader
import ShaderAlgebra.Typing.Infer

/-!
# Checking of function bodies and shaders

Statements are checked in order, each with the symbols that the ones before it declared. A block, a
branch and a loop open a scope and close it again, whether their statements check or not.

In a shader the structs and the forms of the functions are known from the start; a global variable
is known from its declaration on.
-/

namespace ShaderAlgebra

/-- A check that declares symbols as it goes. -/
abbrev Checking := ExceptT TypeError (StateM SymbolTable)

namespace Checking

variable {α : Type}

/-- A check with the symbols that are declared by now. -/
def withSymbols (check : SymbolTable → Except TypeError α) : Checking α :=
  ExceptT.mk fun symbols => (check symbols, symbols)

/-- Declares a name in the current scope. -/
def declare (name : String) (ty : Ty) : Checking Unit :=
  ExceptT.mk fun symbols => (.ok (), (symbols.declare name ty).2)

/-- Runs a check in a scope of its own, which is closed also if the check fails. -/
def inScope (check : Checking α) : Checking α :=
  ExceptT.mk fun symbols =>
    let (outcome, after) := check.run.run symbols.pushScope
    (outcome, after.popScope)

end Checking

/-- The function whose body is checked. -/
structure Enclosing where
  function : String
  result : Ty

namespace Enclosing

def site (enclosing : Enclosing) (symbols : SymbolTable) : Site :=
  ⟨symbols, some enclosing.function⟩

end Enclosing

namespace Site

/-- Checks that an annotated initializer converts to the declared type. -/
def requireInitializer (site : Site) (name : String) (declared : Ty) (init : Expr) :
    Except TypeError Unit :=
  if init.ty.convertsTo declared then .ok ()
  else .error (site.errorAt init.text (.badInitializer name declared init.ty))

/-- An annotated initializer, if there is one. -/
def initializer (site : Site) (name : String) (declared : Ty) :
    Option Expr → Except TypeError (Option Expr)
  | none => .ok none
  | some init => do
    let init ← init.infer site
    site.requireInitializer name declared init
    return some init

/-- An annotated condition. -/
def condition (site : Site) (condition : Expr) : Except TypeError Expr := do
  let condition ← condition.infer site
  site.requireBool condition
  return condition

end Site

/-- Whether a variable can have the type. -/
def Ty.isDeclarable : Ty → Bool
  | .void | .unknown | .function .. => false
  | _ => true

namespace Stmt

/-- Checks a declaration and makes its name known. The initializer is checked before that. -/
def checkDeclaration (enclosing : Enclosing) (name : String) (ty : Ty) (init : Option Expr) :
    Checking Stmt := do
  let (declared, init') ← Checking.withSymbols fun symbols => do
    let site := enclosing.site symbols
    let declared := symbols.resolve ty
    if !declared.isDeclarable then
      throw (site.errorAt (Stmt.declare name ty init).text (.badDeclaration name declared))
    let init' ← site.initializer name declared init
    return (declared, init')
  Checking.declare name declared
  return .declare name declared init'

/-- Checks a returned value against the result type. -/
def checkReturn (enclosing : Enclosing) (site : Site) : Option Expr → Except TypeError Stmt
  | some value => do
    let value ← value.infer site
    if value.ty.convertsTo enclosing.result then return .ret (some value)
    else throw (site.errorAt value.text (.returnMismatch enclosing.result value.ty))
  | none =>
    if enclosing.result = .void then .ok (.ret none)
    else .error (site.errorAt (Stmt.ret none).text (.returnMismatch enclosing.result .void))

mutual

/-- Checks a statement and annotates it. -/
def check (enclosing : Enclosing) : Stmt → Checking Stmt
  | .declare name ty init => checkDeclaration enclosing name ty init
  | .eval expr => do
    let expr ← Checking.withSymbols fun symbols => expr.infer (enclosing.site symbols)
    return .eval expr
  | .ret value =>
    Checking.withSymbols fun symbols => checkReturn enclosing (enclosing.site symbols) value
  | .branch condition accept reject => do
    let condition ← Checking.withSymbols fun symbols =>
      (enclosing.site symbols).condition condition
    let accept ← Checking.inScope (checkAll enclosing accept)
    let reject ← Checking.inScope (checkAll enclosing reject)
    return .branch condition accept reject
  | .loop init condition step body => Checking.inScope do
    let init ← checkOption enclosing init
    let condition ← Checking.withSymbols fun symbols =>
      condition.mapM (enclosing.site symbols).condition
    let step ← Checking.withSymbols fun symbols => step.mapM (Expr.infer (enclosing.site symbols))
    let body ← Checking.inScope (checkAll enclosing body)
    return .loop init condition step body
  | .block body => do
    let body ← Checking.inScope (checkAll enclosing body)
    return .block body
  | .leave => pure .leave
  | .next => pure .next

def checkOption (enclosing : Enclosing) : Option Stmt → Checking (Option Stmt)
  | none => pure none
  | some s => do
    let s ← check enclosing s
    return some s

/-- Checks statements in order. -/
def checkAll (enclosing : Enclosing) : List Stmt → Checking (List Stmt)
  | [] => pure []
  | s :: ss => do
    let s ← check enclosing s
    let ss ← checkAll enclosing ss
    return s :: ss

end

end Stmt

namespace FunctionDef

/-- Checks a function. Its parameters are declared in a scope around its body. -/
def check (f : FunctionDef) : Checking FunctionDef := ExceptT.mk fun symbols =>
  let form := symbols.overloadOf f
  let body : Checking (List Stmt) := ExceptT.mk fun symbols =>
    (Stmt.checkAll ⟨f.name, form.result⟩ f.body).run.run
      (symbols.declareAll (form.parameters.map fun p => (p.name, p.ty)))
  let (outcome, after) := (Checking.inScope body).run.run symbols
  (outcome.map fun body => ⟨f.name, form.parameters, form.result, body⟩, after)

/-- The annotated function, against the given symbols. -/
def infer (f : FunctionDef) (symbols : SymbolTable) : Logged TypeError FunctionDef := do
  Logged.emit (.inferredFunction f.name)
  Logged.ofExcept (f.check.run.run symbols).1

end FunctionDef

namespace Item

/-- Checks an item of a shader, and gives the symbols for the items after it. -/
def check (symbols : SymbolTable) : Item → Logged TypeError (Item × SymbolTable)
  | .struct declaration => pure (.struct declaration, symbols)
  | .global declaration => do
    let ty := symbols.resolve declaration.ty
    let init ← Logged.ofExcept
      (Site.initializer ⟨symbols, none⟩ declaration.name ty declaration.init)
    return (.global { declaration with ty := ty, init := init },
      (symbols.declare declaration.name ty).2)
  | .function f => do
    Logged.emit (.inferredFunction f.name)
    let (outcome, after) := f.check.run.run symbols
    let f ← Logged.ofExcept outcome
    return (.function f, after)

def checkAll (symbols : SymbolTable) : List Item → Logged TypeError (List Item)
  | [] => pure []
  | item :: items => do
    let (item, symbols) ← item.check symbols
    let items ← checkAll symbols items
    return item :: items

end Item

namespace SymbolTable

/-- The structs and functions of a shader, before any of its bodies is checked. -/
def ofShader (shader : Shader) : SymbolTable :=
  let structs := shader.structs.foldl declareStruct .empty
  shader.functions.foldl (fun table f => table.declareFunction f.name (table.overloadOf f)) structs

end SymbolTable

namespace Shader

/-- The annotated shader. -/
def infer (shader : Shader) : Logged TypeError Shader := do
  let items ← Item.checkAll (.ofShader shader) shader.items
  Logged.emit (.inferredShader items.length shader.functions.length)
  return ⟨items⟩

end Shader

end ShaderAlgebra
