import Mathlib.Tactic.Lemma
import ShaderAlgebra.Script.Render

/-!
# Scopes of scripts

Scripts have one namespace for variables and functions. A scope declares all of its names from its
start, but a variable can be read only when its declaration has run. A name refers to the innermost
scope that declares it, and to nothing if that scope declares it twice or if it cannot be read there
yet (`Script.Refers`).

`Script.Module.positions` gives the expressions of a script with the scopes around them, and
`Script.Module.scopes` what each block and function declares.
-/

namespace ShaderAlgebra.Script

/-- A name that a scope declares. -/
structure Declared where
  name : String
  /-- A function can be read from the start. -/
  isFunction : Bool
deriving DecidableEq, Repr

/-- What a scope declares, in order, and how many of the declarations have run. -/
structure Scope where
  declared : List Declared
  count : Nat
deriving Repr

/-- What a name refers to in nested scopes, the innermost first: the scope that declares it, and the
place of the declaration in it. -/
inductive Refers : List Scope → String → Nat × Nat → Prop
  | here {scope scopes name i} {d : Declared} : scope.declared[i]? = some d → d.name = name →
    d.isFunction = true ∨ i < scope.count →
    (∀ k other, scope.declared[k]? = some other → other.name = name → k = i) →
    Refers (scope :: scopes) name (0, i)
  | outward {scope scopes name depth i} : (∀ d ∈ scope.declared, d.name ≠ name) →
    Refers scopes name (depth, i) → Refers (scope :: scopes) name (depth + 1, i)

/-- An expression with the scopes around it. -/
structure Position where
  scopes : List Scope
  expr : Expr
deriving Repr

namespace Stmt

/-- What a statement declares in the scope that it stands in. -/
def declared : Stmt → List Declared
  | .declare name _ => [⟨name, false⟩]
  | _ => []

def declaredOfOption (s : Option Stmt) : List Declared := s.toList.flatMap declared

def declaredOfAll (ss : List Stmt) : List Declared := ss.flatMap declared

mutual

/-- The expressions of a statement, each where it stands. The statement is in a scope that declares
`own`, of which `count` have run before it. -/
def positions (outer : List Scope) (own : List Declared) (count : Nat) : Stmt → List Position
  | .declare _ init => [⟨⟨own, count⟩ :: outer, init⟩]
  | .eval expr => [⟨⟨own, count⟩ :: outer, expr⟩]
  | .ret value => value.toList.map fun e => ⟨⟨own, count⟩ :: outer, e⟩
  | .branch condition accept reject =>
    let here := ⟨own, count⟩ :: outer
    ⟨here, condition⟩ :: (positionsOfAll here (declaredOfAll accept) 0 accept
      ++ positionsOfAll here (declaredOfAll reject) 0 reject)
  | .loop init condition step body =>
    let here := ⟨own, count⟩ :: outer
    let header := declaredOfOption init
    let inside := ⟨header, header.length⟩ :: here
    positionsOfOption here header 0 init
      ++ ((condition.toList ++ step.toList).map fun e => ⟨inside, e⟩)
      ++ positionsOfAll inside (declaredOfAll body) 0 body
  | .block body => positionsOfAll (⟨own, count⟩ :: outer) (declaredOfAll body) 0 body
  | .leave | .next => []

def positionsOfOption (outer : List Scope) (own : List Declared) (count : Nat) :
    Option Stmt → List Position
  | none => []
  | some s => positions outer own count s

def positionsOfAll (outer : List Scope) (own : List Declared) (count : Nat) :
    List Stmt → List Position
  | [] => []
  | s :: ss =>
    positions outer own count s ++ positionsOfAll outer own (count + s.declared.length) ss

end

mutual

/-- What the blocks inside of a statement declare. The header of a loop is one, and its body
another. -/
def scopes : Stmt → List (List Declared)
  | .branch _ accept reject =>
    (declaredOfAll accept :: scopesOfAll accept) ++ (declaredOfAll reject :: scopesOfAll reject)
  | .loop init _ _ body =>
    (declaredOfOption init :: scopesOfOption init) ++ (declaredOfAll body :: scopesOfAll body)
  | .block body => declaredOfAll body :: scopesOfAll body
  | .declare .. | .eval _ | .ret _ | .leave | .next => []

def scopesOfOption : Option Stmt → List (List Declared)
  | none => []
  | some s => scopes s

def scopesOfAll : List Stmt → List (List Declared)
  | [] => []
  | s :: ss => scopes s ++ scopesOfAll ss

end

/-- Statements that declare nothing leave the scope as it is. -/
lemma positionsOfAll_append {outer : List Scope} {own : List Declared} {count : Nat}
    {ss ss' : List Stmt} (silent : declaredOfAll ss = []) :
    positionsOfAll outer own count (ss ++ ss')
      = positionsOfAll outer own count ss ++ positionsOfAll outer own count ss' := by
  induction ss with
  | nil => rfl
  | cons s ss ih =>
    obtain ⟨silentFirst, silentRest⟩ : s.declared = [] ∧ declaredOfAll ss = [] := by
      simpa [declaredOfAll] using silent
    simp [positionsOfAll, silentFirst, ih silentRest]

lemma scopesOfAll_append (ss ss' : List Stmt) :
    scopesOfAll (ss ++ ss') = scopesOfAll ss ++ scopesOfAll ss' := by
  induction ss with
  | nil => rfl
  | cons s ss ih => simp [scopesOfAll, ih]

end Stmt

namespace Function

/-- What a function declares: its parameters and the variables of its body. -/
def declared (f : Function) : List Declared :=
  f.parameters.map (fun p => ⟨p.name, false⟩) ++ Stmt.declaredOfAll f.body

def positions (outer : List Scope) (f : Function) : List Position :=
  Stmt.positionsOfAll outer f.declared f.parameters.length f.body

def scopes (f : Function) : List (List Declared) := f.declared :: Stmt.scopesOfAll f.body

end Function

namespace Item

/-- What an item declares in the script. -/
def declared : Item → List Declared
  | .typedef .. => []
  | .constant binding _ | .global binding _ _ => [⟨binding.name, false⟩]
  | .function definition => [⟨definition.name, true⟩]

/-- The function that sets a variable is declared too. -/
def setter : Item → List Declared
  | .global binding _ true => [⟨setterName binding.name, true⟩]
  | _ => []

/-- The expressions of an item of a script that declares `all`, of which `count` have run. The body
of a function runs when all have. -/
def positions (all : List Declared) (count : Nat) : Item → List Position
  | .typedef .. => []
  | .constant _ value | .global _ value _ => [⟨[⟨all, count⟩], value⟩]
  | .function definition => definition.positions [⟨all, all.length⟩]

def scopes : Item → List (List Declared)
  | .function definition => definition.scopes
  | _ => []

def positionsOfAll (all : List Declared) (count : Nat) : List Item → List Position
  | [] => []
  | item :: items =>
    item.positions all count ++ positionsOfAll all (count + item.declared.length) items

end Item

namespace Module

/-- What the items of a script declare, and then their setters. -/
def declared (script : Module) : List Declared :=
  script.items.flatMap Item.declared ++ script.items.flatMap Item.setter

def positions (script : Module) : List Position :=
  Item.positionsOfAll script.declared 0 script.items

def scopes (script : Module) : List (List Declared) := script.items.flatMap Item.scopes

end Module

end ShaderAlgebra.Script
