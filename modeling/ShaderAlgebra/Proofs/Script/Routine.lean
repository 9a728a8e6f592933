import ShaderAlgebra.Proofs.Script.Value

/-!
# Routines

The functions that a lowered expression may call: those of the vector library for one size, the
helpers of the preamble, and one of `Math`. A script calls a routine by its path, and a path names
one routine (`Routine.path_injective`). `Routine.apply` is the documented meaning of a routine on
values.
-/

namespace ShaderAlgebra.Script

/-- What the library has for vectors of one size. -/
inductive VectorRoutine where
  | create
  | clone
  | fromValues
  | add
  | subtract
  | multiply
  | divide
  | scale
  | negate
  /-- The image under a matrix of the same size. -/
  | transform
  | exactEquals
deriving DecidableEq, Repr

/-- What the library has for square matrices of one size. -/
inductive MatrixRoutine where
  | create
  | clone
  | fromValues
  | add
  | subtract
  | multiply
  | multiplyScalar
  | transpose
  | exactEquals
deriving DecidableEq, Repr

/-- What the preamble adds. -/
inductive Helper where
  | splat
  | vector
  | matrix
  | resize
  | swizzle
  | column
deriving DecidableEq, Repr

inductive Routine where
  | trunc
  | helper (routine : Helper)
  | vector (size : Dim) (routine : VectorRoutine)
  | matrix (size : Dim) (routine : MatrixRoutine)
deriving DecidableEq, Repr

/-- The objects that the routines belong to. -/
inductive Owner where
  | math
  | glsl
  | vectors (size : Dim)
  | matrices (size : Dim)
deriving DecidableEq, Repr

/-! ## Paths -/

def Owner.text : Owner → String
  | .math => "Math"
  | .glsl => "glsl"
  | .vectors size => "vec" ++ size.text
  | .matrices size => "mat" ++ size.text

def VectorRoutine.name (size : Dim) : VectorRoutine → String
  | .create => "create"
  | .clone => "clone"
  | .fromValues => "fromValues"
  | .add => "add"
  | .subtract => "subtract"
  | .multiply => "multiply"
  | .divide => "divide"
  | .scale => "scale"
  | .negate => "negate"
  | .transform => "transformMat" ++ size.text
  | .exactEquals => "exactEquals"

def MatrixRoutine.name : MatrixRoutine → String
  | .create => "create"
  | .clone => "clone"
  | .fromValues => "fromValues"
  | .add => "add"
  | .subtract => "subtract"
  | .multiply => "multiply"
  | .multiplyScalar => "multiplyScalar"
  | .transpose => "transpose"
  | .exactEquals => "exactEquals"

def Helper.name : Helper → String
  | .splat => "splat"
  | .vector => "vector"
  | .matrix => "matrix"
  | .resize => "resize"
  | .swizzle => "swizzle"
  | .column => "column"

namespace Routine

def owner : Routine → Owner
  | .trunc => .math
  | .helper _ => .glsl
  | .vector size _ => .vectors size
  | .matrix size _ => .matrices size

def name : Routine → String
  | .trunc => "trunc"
  | .helper routine => routine.name
  | .vector size routine => routine.name size
  | .matrix _ routine => routine.name

/-- The path that a script calls the routine by. -/
def path (routine : Routine) : String := routine.owner.text ++ "." ++ routine.name

end Routine

section Names

lemma texts_of_dims : Dim.two.text = "2" ∧ Dim.three.text = "3" ∧ Dim.four.text = "4" :=
  ⟨rfl, rfl, rfl⟩

lemma Owner.text_injective {first second : Owner} (same : first.text = second.text) :
    first = second := by
  rcases first with _ | _ | (_ | _ | _) | (_ | _ | _) <;>
    rcases second with _ | _ | (_ | _ | _) | (_ | _ | _) <;>
    simp [text, texts_of_dims] at same ⊢

lemma VectorRoutine.name_injective {size : Dim} {first second : VectorRoutine}
    (same : first.name size = second.name size) : first = second := by
  cases size <;> cases first <;> cases second <;> simp [name, texts_of_dims] at same ⊢

lemma MatrixRoutine.name_injective {first second : MatrixRoutine}
    (same : first.name = second.name) : first = second := by
  cases first <;> cases second <;> simp [name] at same ⊢

lemma Helper.name_injective {first second : Helper} (same : first.name = second.name) :
    first = second := by
  cases first <;> cases second <;> simp [name] at same ⊢

lemma Owner.point_notMem_text (owner : Owner) : '.' ∉ owner.text.toList := by
  rcases owner with _ | _ | (_ | _ | _) | (_ | _ | _) <;> decide

lemma Routine.point_notMem_name (routine : Routine) : '.' ∉ routine.name.toList := by
  cases routine with
  | trunc => decide
  | helper routine => cases routine <;> decide
  | vector size routine | matrix size routine => cases size <;> cases routine <;> decide

/-- A path names one routine. -/
lemma Routine.path_injective {first second : Routine} (same : first.path = second.path) :
    first = second := by
  have lists := congrArg String.toList same
  simp only [path, String.toList_append, List.append_assoc] at lists
  obtain ⟨owners, -, names⟩ :=
    (List.append_cons_inj_of_notMem first.owner.point_notMem_text first.point_notMem_name).mp lists
  replace owners := Owner.text_injective (String.toList_inj.mp owners)
  replace names := String.toList_inj.mp names
  cases first <;> cases second <;> simp only [owner, Owner.vectors.injEq, Owner.matrices.injEq,
    reduceCtorEq] at owners
  case trunc.trunc => rfl
  case helper.helper => rw [Helper.name_injective names]
  case vector.vector =>
    subst owners
    rw [VectorRoutine.name_injective names]
  case matrix.matrix =>
    subst owners
    rw [MatrixRoutine.name_injective names]

end Names

/-! ## What routines do -/

section Arity

def onOne (f : Value → Option Value) : List Value → Option Value
  | [a] => f a
  | _ => none

def onTwo (f : Value → Value → Option Value) : List Value → Option Value
  | [a, b] => f a b
  | _ => none

/-- The routines that write a result take the place to write it to as their first argument. -/
def writing (f : List Value → Option Value) : List Value → Option Value
  | _ :: arguments => f arguments
  | [] => none

/-- A routine whose first argument is a size. -/
def sized (f : Nat → List Value → Option Value) : List Value → Option Value
  | count :: arguments => do f (← count.natural?) arguments
  | [] => none

lemma sized_natCast (f : Nat → List Value → Option Value) (n : Nat) (args : List Value) :
    sized f (.number n :: args) = f n args := by
  simp [sized, Value.natural?_natCast]

end Arity

open ShaderAlgebra.Script.Value in
def VectorRoutine.apply (size : Dim) : VectorRoutine → List Value → Option Value
  | .create => fun arguments => if arguments.isEmpty then some (.vector size fun _ => 0) else none
  | .clone => onOne (mapVector size id)
  | .fromValues => gather size.count
  | .add => writing (onTwo (zipVectors size (· + ·)))
  | .subtract => writing (onTwo (zipVectors size (· - ·)))
  | .multiply => writing (onTwo (zipVectors size (· * ·)))
  | .divide => writing (onTwo (divideVectors size))
  | .scale => writing (onTwo fun a s => do mapVector size (· * (← s.number?)) a)
  | .negate => writing (onOne (mapVector size (- ·)))
  | .transform => writing (onTwo (transformVector size))
  | .exactEquals => onTwo (equalVectors size)

open ShaderAlgebra.Script.Value in
def MatrixRoutine.apply (size : Dim) : MatrixRoutine → List Value → Option Value
  | .create => fun arguments =>
    if arguments.isEmpty then
      some (.matrix size fun column row => if column = row then 1 else 0)
    else none
  | .clone => onOne (mapMatrix size id)
  | .fromValues => gather (size.count * size.count)
  | .add => writing (onTwo (zipMatrices size (· + ·)))
  | .subtract => writing (onTwo (zipMatrices size (· - ·)))
  | .multiply => writing (onTwo (multiplyMatrices size))
  | .multiplyScalar => writing (onTwo fun a s => do mapMatrix size (· * (← s.number?)) a)
  | .transpose => writing (onOne (transposeMatrix size))
  | .exactEquals => onTwo (equalMatrices size)

open ShaderAlgebra.Script.Value in
def Helper.apply : Helper → List Value → Option Value
  | .splat => sized fun n => onOne fun a => do return .array (List.replicate n (← a.number?))
  | .vector => sized concatenate
  | .matrix => sized fillMatrix
  | .resize => sized fun n => sized fun m => onOne (resizeMatrix n m)
  | .swizzle => fun
    | source :: positions => pick source positions
    | [] => none
  | .column => fun
    | source :: arguments =>
      sized (fun n => onOne fun position => do slice source n (← position.natural?)) arguments
    | [] => none

/-- What a call of a routine gives. -/
def Routine.apply : Routine → List Value → Option Value
  | .trunc => onOne fun a => do return .number (integerPart (← a.number?))
  | .helper routine => routine.apply
  | .vector size routine => routine.apply size
  | .matrix size routine => routine.apply size

end ShaderAlgebra.Script
