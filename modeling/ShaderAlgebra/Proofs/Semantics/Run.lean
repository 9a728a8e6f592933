import ShaderAlgebra.Proofs.Semantics.Eval

/-!
# Running a body

Statements are run in order on a `Machine`, which holds the local variables, scope by scope, and the
variables around them. A declaration makes a variable of the innermost scope, with its initial value
converted to the declared type. An assignment stores into the innermost variable of that name. What
no scope holds is a parameter or a global, and it is stored outside of all scopes, where the block
that assigns it does not end its life.

Which branch an `if` takes is not decided here. A run is given the verdicts on the conditions that
it meets, in order.

A run is stuck at what is not modelled: a loop, a jump, a return without a value, and an assignment
to a part of a variable.
-/

namespace ShaderAlgebra

/-- The local variables of one scope. A variable that was declared without a value has none until it
is assigned. -/
abbrev Slots (A : Arithmetic) := Bindings (Option (Value A))

/-- The values of the parameters and globals, from their names and types. -/
abbrev Valuation (A : Arithmetic) := (name : String) → (ty : Ty) → Val A ty

/-- The variables while a body runs. -/
structure Machine (A : Arithmetic) where
  /-- The open scopes, innermost first. -/
  scopes : List (Slots A)
  /-- The parameters and the globals. -/
  outside : Valuation A
  /-- The verdicts on the conditions to come. -/
  verdicts : List Bool

namespace Machine

variable {A : Arithmetic}

/-- The innermost local variable of that name. -/
def get? (m : Machine A) (name : String) : Option (Option (Value A)) :=
  m.scopes.findSome? fun scope => scope.get? name

/-- What a variable of the given type reads as: a local one, or else one outside. One that has no
value yet reads as zero. -/
def read (m : Machine A) (name : String) (ty : Ty) : Val A ty :=
  match m.get? name with
  | some (some v) => v.dataAs ty
  | some none => Value.zeroData ty
  | none => m.outside name ty

/-- The interpretation with the variables as they are now. -/
def meaning (m : Machine A) (I : Interpretation A) : Interpretation A := { I with read := m.read }

/-- Makes a variable of the innermost scope. -/
def declare (m : Machine A) (name : String) (value : Option (Value A)) : Machine A :=
  match m.scopes with
  | [] => { m with scopes := [Bindings.empty.set name value] }
  | scope :: rest => { m with scopes := scope.set name value :: rest }

/-- The scopes with a value in the innermost variable of that name, if any of them holds one. -/
def storeIn? (name : String) (v : Value A) : List (Slots A) → Option (List (Slots A))
  | [] => none
  | scope :: rest =>
    if scope.contains name then some (scope.set name (some v) :: rest)
    else (storeIn? name v rest).map (scope :: ·)

/-- Stores a value in the innermost variable of that name. -/
def store (m : Machine A) (name : String) (v : Value A) : Machine A :=
  match storeIn? name v m.scopes with
  | some scopes => { m with scopes := scopes }
  | none =>
    { m with outside := fun other ty => if other = name then v.dataAs ty else m.outside other ty }

/-- A value is stored in the innermost scope if that holds the variable. -/
lemma store_present {m : Machine A} {scope : Slots A} {rest : List (Slots A)} {name : String}
    {v : Value A} (held : scope.contains name) :
    { m with scopes := scope :: rest }.store name v
      = { m with scopes := scope.set name (some v) :: rest } := by
  simp [store, storeIn?, held]

/-- A value is stored around the innermost scope if that does not hold the variable. -/
lemma store_absent {m : Machine A} {scope : Slots A} {rest : List (Slots A)} {name : String}
    {v : Value A} (missing : scope.contains name = false) :
    { m with scopes := scope :: rest }.store name v
      = let around := { m with scopes := rest }.store name v
        { around with scopes := scope :: around.scopes } := by
  cases stored : storeIn? name v rest <;> simp [store, storeIn?, missing, stored]

@[simp] lemma verdicts_store (m : Machine A) (name : String) (v : Value A) :
    (m.store name v).verdicts = m.verdicts := by
  unfold store
  split <;> rfl

@[simp] lemma verdicts_declare (m : Machine A) (name : String) (v : Option (Value A)) :
    (m.declare name v).verdicts = m.verdicts := by
  unfold declare
  split <;> rfl

def openScope (m : Machine A) : Machine A := { m with scopes := .empty :: m.scopes }

def closeScope (m : Machine A) : Machine A := { m with scopes := m.scopes.tail }

end Machine

/-- How statements end. -/
inductive Ending (A : Arithmetic) where
  | returned (value : Value A)
  | through (m : Machine A)
  | stuck

namespace Ending

variable {A : Arithmetic}

/-- The end of the statements of a scope, seen from around it. -/
def leaveScope : Ending A → Ending A
  | .returned value => .returned value
  | .through m => .through m.closeScope
  | .stuck => .stuck

end Ending

/-- Runs an expression statement. Only an assignment has an effect. -/
def Expr.run {A : Arithmetic} (I : Interpretation A) (e : Expr) (m : Machine A) : Ending A :=
  match e with
  | .assign _ (.ident name _) _ _ => .through (m.store name (e.eval (m.meaning I)))
  | .assign .. => .stuck
  | _ => .through m

namespace Stmt

variable {A : Arithmetic}

mutual

def run (I : Interpretation A) : Stmt → Machine A → Ending A
  | .declare name ty init, m =>
    .through (m.declare name (init.map fun e => (e.eval (m.meaning I)).convertTo ty))
  | .eval e, m => e.run I m
  | .ret (some value), m => .returned (value.eval (m.meaning I))
  | .block body, m => (runAll I body m.openScope).leaveScope
  | .branch _ accept reject, m =>
    match m.verdicts with
    | true :: rest => (runAll I accept { m with verdicts := rest }.openScope).leaveScope
    | false :: rest => (runAll I reject { m with verdicts := rest }.openScope).leaveScope
    | [] => .stuck
  | .ret none, _ => .stuck
  | .loop .., _ => .stuck
  | .leave, _ => .stuck
  | .next, _ => .stuck

def runAll (I : Interpretation A) : List Stmt → Machine A → Ending A
  | [], m => .through m
  | s :: ss, m =>
    match run I s m with
    | .through m => runAll I ss m
    | ending => ending

end

end Stmt

namespace FunctionDef

variable {A : Arithmetic}

/-- Runs the body of a function, with the parameters and globals of the interpretation. -/
def run (f : FunctionDef) (I : Interpretation A) (verdicts : List Bool) : Ending A :=
  Stmt.runAll I f.body ⟨[.empty], I.read, verdicts⟩

end FunctionDef

end ShaderAlgebra
