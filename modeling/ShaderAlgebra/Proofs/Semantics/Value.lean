import Mathlib.Tactic.Lemma
import ShaderAlgebra.Typing.Infer

/-!
# Values

What expressions denote. A value is a type with data of that type: a scalar is a number or a truth
value, a vector is a function from its positions, a matrix is a function from columns and rows, and
so on through arrays and structs.

The numbers are left open. An `Arithmetic` says what the values of `int` and `float` are and how to
calculate with them, so the same evaluation is exact arithmetic, machine arithmetic or anything
else.

Operators find the type of their result first and then calculate each component of it, from the
components of the operands converted to its kind. A scalar has the same component everywhere, which
is how it is spread over a vector or a matrix.
-/

namespace ShaderAlgebra

/-! ## Arithmetic -/

/-- Calculation with the numbers of one kind. -/
structure Numbers (α : Type) where
  zero : α
  one : α
  negate : α → α
  add : α → α → α
  subtract : α → α → α
  multiply : α → α → α
  divide : α → α → α
  modulo : α → α → α
  less : α → α → Bool
  lessEqual : α → α → Bool
  equal : α → α → Bool

/-- The values of `int` and `float`, what literals stand for, and how one kind becomes another. -/
structure Arithmetic where
  Whole : Type
  Real : Type
  whole : Numbers Whole
  real : Numbers Real
  ofInt : Int32 → Whole
  ofFloat : Single → Real
  toReal : Whole → Real
  /-- The integer part. -/
  truncate : Real → Whole
  /-- The place that an integer counts to, as an index. -/
  position : Whole → Int

/-- The values of a kind. -/
def Kind.Carrier (A : Arithmetic) : Kind → Type
  | .bool => Bool
  | .int => A.Whole
  | .float => A.Real

lemma Kind.unify?_comm (a b : Kind) : a.unify? b = b.unify? a := by
  cases a <;> cases b <;> rfl

namespace Numbers

variable {α : Type} (N : Numbers α)

/-- What an arithmetic operator calculates. -/
def combine : BinaryOp → α → α → α
  | .add => N.add
  | .subtract => N.subtract
  | .multiply => N.multiply
  | .divide => N.divide
  | .modulo => N.modulo
  | _ => fun left _ => left

/-- What a comparison says. -/
def compare : BinaryOp → α → α → Bool
  | .less => N.less
  | .lessEqual => N.lessEqual
  | .greater => fun left right => N.less right left
  | .greaterEqual => fun left right => N.lessEqual right left
  | _ => N.equal

/-- The sum of the first `count` terms. -/
def sum (term : Nat → α) : (count : Nat) → α
  | 0 => N.zero
  | count + 1 => N.add (sum term count) (term count)

end Numbers

namespace Arithmetic

variable (A : Arithmetic)

def zero : (kind : Kind) → kind.Carrier A
  | .bool => false
  | .int => A.whole.zero
  | .float => A.real.zero

/-- A value of one kind as a value of another. -/
def convert : (source target : Kind) → source.Carrier A → target.Carrier A
  | .bool, .bool => fun b => b
  | .bool, .int => fun (b : Bool) => if b then A.whole.one else A.whole.zero
  | .bool, .float => fun (b : Bool) => if b then A.real.one else A.real.zero
  | .int, .bool => fun n => !A.whole.equal n A.whole.zero
  | .int, .int => fun n => n
  | .int, .float => A.toReal
  | .float, .bool => fun x => !A.real.equal x A.real.zero
  | .float, .int => A.truncate
  | .float, .float => fun x => x

def negate : (kind : Kind) → kind.Carrier A → kind.Carrier A
  | .bool => fun b => b
  | .int => A.whole.negate
  | .float => A.real.negate

def combine (op : BinaryOp) : (kind : Kind) → kind.Carrier A → kind.Carrier A → kind.Carrier A
  | .bool => fun left _ => left
  | .int => A.whole.combine op
  | .float => A.real.combine op

def compare (op : BinaryOp) : (kind : Kind) → kind.Carrier A → kind.Carrier A → Bool
  | .bool => fun (left right : Bool) => left == right
  | .int => A.whole.compare op
  | .float => A.real.compare op

end Arithmetic

/-! ## Data and values -/

mutual

/-- The data of a type. -/
def Val (A : Arithmetic) : Ty → Type
  | .void | .function .. | .unknown => Unit
  | .scalar kind => kind.Carrier A
  | .vector size kind => Fin size.count → kind.Carrier A
  | .matrix columns rows => Fin columns.count → Fin rows.count → A.Real
  | .array base size => Fin size → Val A base
  | .struct _ members => MemberVals A members

/-- The data of the members of a struct. -/
def MemberVals (A : Arithmetic) : List (String × Ty) → Type
  | [] => Unit
  | (_, ty) :: members => Val A ty × MemberVals A members

end

/-- A value: a type, and data of that type. -/
structure Value (A : Arithmetic) where
  ty : Ty
  data : Val A ty

namespace Value

variable {A : Arithmetic}

/-- The value of what has none. -/
def undefined : Value A := ⟨.unknown, ()⟩

def ofBool (b : Bool) : Value A := ⟨Ty.bool, b⟩

/-- The value of a literal. -/
def ofLiteral : Literal → Value A
  | .bool b => ofBool b
  | .int n => ⟨Ty.int, A.ofInt n⟩
  | .float x => ⟨Ty.float, A.ofFloat x⟩

/-- Whether the value is the truth value `true`. -/
def truth : Value A → Bool
  | ⟨.scalar .bool, b⟩ => b
  | _ => false

/-! ## Data of a given type -/

mutual

/-- The data of a type with zero everywhere. -/
def zeroData : (ty : Ty) → Val A ty
  | .void | .function .. | .unknown => ()
  | .scalar kind => A.zero kind
  | .vector _ kind => fun _ => A.zero kind
  | .matrix .. => fun _ _ => A.real.zero
  | .array base _ => fun _ => zeroData base
  | .struct _ members => zeroMembers members

def zeroMembers : (members : List (String × Ty)) → MemberVals A members
  | [] => ()
  | (_, ty) :: members => (zeroData ty, zeroMembers members)

end

/-- The data of a value as data of a type, which is zero if the value has another type. -/
def dataAs (v : Value A) (ty : Ty) : Val A ty :=
  if same : v.ty = ty then same ▸ v.data else zeroData ty

lemma mk_dataAs {v : Value A} {ty : Ty} (same : v.ty = ty) : ⟨ty, v.dataAs ty⟩ = v := by
  subst same
  simp [dataAs]

/-! ## Components -/

/-- The component in a row of a column, converted to the given kind. A vector is one column, and a
scalar has the same component everywhere. -/
def component (kind : Kind) : Value A → (column row : Nat) → kind.Carrier A
  | ⟨.scalar own, x⟩, _, _ => A.convert own kind x
  | ⟨.vector size own, x⟩, _, row =>
    if inside : row < size.count then A.convert own kind (x ⟨row, inside⟩) else A.zero kind
  | ⟨.matrix columns rows, x⟩, column, row =>
    if inside : column < columns.count ∧ row < rows.count then
      A.convert .float kind (x ⟨column, inside.1⟩ ⟨row, inside.2⟩)
    else A.zero kind
  | _, _, _ => A.zero kind

/-- The scalar, vector or matrix with the given components. -/
def build (ty : Ty) (component : (kind : Kind) → (column row : Nat) → kind.Carrier A) : Value A :=
  match ty with
  | .scalar kind => ⟨.scalar kind, component kind 0 0⟩
  | .vector size kind => ⟨.vector size kind, fun row => component kind 0 row⟩
  | .matrix columns rows =>
    ⟨.matrix columns rows, fun column row => component .float column row⟩
  | _ => undefined

/-- The value converted to a type, as in an assignment to a variable of that type. -/
def convertTo (ty : Ty) (v : Value A) : Value A :=
  if v.ty = ty then v else build ty fun kind => v.component kind

/-! ## Operators -/

/-- A unary operator on a value. -/
def unary (op : UnaryOp) (v : Value A) : Value A :=
  match op, Ty.unary? op v.ty with
  | .negate, some ty => build ty fun kind column row => A.negate kind (v.component kind column row)
  | .not, some _ => ofBool !v.truth
  | _, none => undefined

/-- An arithmetic operator, component by component of the given result type. -/
def arithmetic (op : BinaryOp) (ty : Ty) (v w : Value A) : Value A :=
  build ty fun kind column row =>
    A.combine op kind (v.component kind column row) (w.component kind column row)

/-- The product of the given type: that of linear algebra if a matrix meets a vector or a matrix,
else component by component. -/
def product (ty : Ty) (v w : Value A) : Value A :=
  -- The component in a row of a column is a sum over what the operands have in common.
  let linear (count : Nat) (term : (column row i : Nat) → A.Real) : Value A :=
    (build ty fun
      | .float, column, row => A.real.sum (term column row) count
      | kind, _, _ => A.zero kind)
  let times (x y : Kind.float.Carrier A) : A.Real := A.real.multiply x y
  match v.ty, w.ty with
  | .matrix columns _, .vector .. =>
    linear columns.count fun _ row i => times (v.component .float i row) (w.component .float 0 i)
  | .vector size _, .matrix .. =>
    -- The result has a component for each column, and its components are numbered by rows.
    linear size.count fun _ row i => times (v.component .float 0 i) (w.component .float row i)
  | .matrix columns _, .matrix .. =>
    linear columns.count fun column row i =>
      times (v.component .float i row) (w.component .float column i)
  | _, _ => arithmetic .multiply ty v w

/-- The kind in which two scalars are compared. -/
def comparisonKind (v w : Value A) : Kind :=
  if v.ty = Ty.int ∧ w.ty = Ty.int then .int else .float

mutual

/-- Whether two data of a type are equal. -/
def equalData : (ty : Ty) → Val A ty → Val A ty → Bool
  | .void, _, _ | .function .., _, _ | .unknown, _, _ => true
  | .scalar kind, x, y => A.compare .equal kind x y
  | .vector size kind, x, y =>
    (List.finRange size.count).all fun i => A.compare .equal kind (x i) (y i)
  | .matrix columns rows, x, y =>
    (List.finRange columns.count).all fun i =>
      (List.finRange rows.count).all fun j => A.real.equal (x i j) (y i j)
  | .array base size, x, y => (List.finRange size).all fun i => equalData base (x i) (y i)
  | .struct _ members, x, y => equalMembers members x y

/-- Whether two structs have equal data in every member. -/
def equalMembers : (members : List (String × Ty)) → MemberVals A members →
    MemberVals A members → Bool
  | [], _, _ => true
  | (_, ty) :: members, x, y => equalData ty x.1 y.1 && equalMembers members x.2 y.2

end

/-- Whether two values are equal. They have to have one type. -/
def equal (v w : Value A) : Bool :=
  if same : v.ty = w.ty then equalData w.ty (same ▸ v.data) w.data else false

/-- Whether two values are equal, once the one that converts to the type of the other is converted.
-/
def equalConverted (v w : Value A) : Bool :=
  if v.ty.convertsTo w.ty then (v.convertTo w.ty).equal w else v.equal (w.convertTo v.ty)

/-- A binary operator on two values. -/
def binary (op : BinaryOp) (v w : Value A) : Value A :=
  match Ty.binary? op v.ty w.ty with
  | none => undefined
  | some ty =>
    match op with
    | .add | .subtract | .divide | .modulo => arithmetic op ty v w
    | .multiply => product ty v w
    | .less | .lessEqual | .greater | .greaterEqual =>
      let kind := comparisonKind v w
      ofBool (A.compare op kind (v.component kind 0 0) (w.component kind 0 0))
    | .equal => ofBool (v.equalConverted w)
    | .notEqual => ofBool !v.equalConverted w
    | .logicalAnd => ofBool (v.truth && w.truth)
    | .logicalOr => ofBool (v.truth || w.truth)

/-- The value that an assignment to a target with the given value stores. -/
def stored (op : Option BinaryOp) (target value : Value A) : Value A :=
  match op with
  | none => value.convertTo target.ty
  | some op => (binary op target value).convertTo target.ty

/-! ## Parts of values -/

/-- The components of a vector that a selector picks. -/
def select (s : Swizzle) (v : Value A) : Value A :=
  match s.resultType v.ty with
  | .ok ty =>
    build ty fun kind _ row => v.component kind 0 ((s.pattern[row]?).elim 0 Component.index)
  | .error _ => undefined

/-- The first member with the given name. -/
def memberOf (name : String) : (members : List (String × Ty)) → MemberVals A members → Value A
  | [], _ => undefined
  | (own, ty) :: members, x => if name == own then ⟨ty, x.1⟩ else memberOf name members x.2

/-- A struct member, or the swizzle of a vector. -/
def field (name : String) (v : Value A) : Value A :=
  if v.ty.isVector then
    match Swizzle.parse? name with
    | some s => select s v
    | none => undefined
  else
    match v with
    | ⟨.struct _ members, x⟩ => memberOf name members x
    | _ => undefined

/-- The element at a place, counted from zero, if it is inside. -/
def element? (v : Value A) (place : Nat) : Option (Value A) :=
  match v with
  | ⟨.array base size, x⟩ => if inside : place < size then some ⟨base, x ⟨place, inside⟩⟩ else none
  | ⟨.vector size kind, x⟩ =>
    if inside : place < size.count then some ⟨.scalar kind, x ⟨place, inside⟩⟩ else none
  | ⟨.matrix columns rows, x⟩ =>
    if inside : place < columns.count then some ⟨Ty.vec rows, x ⟨place, inside⟩⟩ else none
  | _ => none

/-- The place that an index value means, if it is not negative. -/
def place? : Value A → Option Nat
  | ⟨.scalar .int, n⟩ => (A.position n).toNat?
  | _ => none

/-! ## Constructors -/

/-- The components of a scalar, vector or matrix in order, column by column. -/
def components (kind : Kind) (v : Value A) : List (kind.Carrier A) :=
  match v.ty with
  | .scalar _ => [v.component kind 0 0]
  | .vector size _ => (List.range size.count).map fun row => v.component kind 0 row
  | .matrix columns rows =>
    (List.range columns.count).flatMap fun column =>
      (List.range rows.count).map fun row => v.component kind column row
  | _ => []

/-- The identity matrix, and zero outside of it. -/
def identityComponent : (kind : Kind) → (column row : Nat) → kind.Carrier A
  | .float, column, row => if column = row then A.real.one else A.real.zero
  | kind, _, _ => A.zero kind

/-- The value of a scalar, vector or matrix constructor. One scalar fills a vector, and the diagonal
of a matrix. One matrix is cut or filled up with the identity. Otherwise the components of all
arguments are taken in order, as many as are needed. -/
def construct (ty : Ty) (arguments : List (Value A)) : Value A :=
  -- Components are taken column by column; the number of rows is that of the result.
  let inOrder (rows : Nat) : Value A :=
    build ty fun kind column row =>
      (arguments.flatMap (components kind))[column * rows + row]?.getD (A.zero kind)
  match ty, arguments with
  | .vector .., [v] =>
    if v.ty.isScalar then build ty fun kind => v.component kind else inOrder 0
  | .matrix _ rows, [v] =>
    match v.ty with
    | .scalar _ =>
      build ty fun kind column row => if column = row then v.component kind 0 0 else A.zero kind
    | .matrix givenColumns givenRows =>
      build ty fun kind column row =>
        if column < givenColumns.count ∧ row < givenRows.count then v.component kind column row
        else identityComponent kind column row
    | _ => inOrder rows.count
  | .matrix _ rows, _ => inOrder rows.count
  | _, _ => inOrder 0

end Value

end ShaderAlgebra
