import ShaderAlgebra.Proofs.Semantics.Value

/-!
# Data without types

A second account of values that knows no types. A datum is a scalar, a list of scalars, a list of
columns and so on, and an operation looks at the data alone: it is defined where the shading
language gives it a meaning, and gives `none` everywhere else. Numbers of different kinds meet in
`float`, a scalar is spread over the components of the other operand, a product with a matrix is that
of linear algebra, and `==` compares whole aggregates.

`Datum.HasType` says which data a type has.
-/

namespace ShaderAlgebra

open List

variable {A : Arithmetic}

lemma Kind.unify?_float {kind : Kind} (num : kind.isNumeric) :
    kind.unify? .float = some .float := by
  cases kind with
  | bool => cases num
  | int | float => rfl

/-! ## Scalars -/

/-- A truth value or a number. -/
inductive Scalar (A : Arithmetic) where
  | bool (b : Bool)
  | int (n : A.Whole)
  | float (x : A.Real)

namespace Scalar

def kind : Scalar A → Kind
  | .bool _ => .bool
  | .int _ => .int
  | .float _ => .float

def ofLiteral : Literal → Scalar A
  | .bool b => .bool b
  | .int n => .int (A.ofInt n)
  | .float x => .float (A.ofFloat x)

def ofCarrier : (kind : Kind) → kind.Carrier A → Scalar A
  | .bool, b => .bool b
  | .int, n => .int n
  | .float, x => .float x

/-- The scalar as one of another kind, as a constructor makes it. -/
def convert (target : Kind) : Scalar A → Scalar A
  | .bool b => ofCarrier target (A.convert .bool target b)
  | .int n => ofCarrier target (A.convert .int target n)
  | .float x => ofCarrier target (A.convert .float target x)

/-- An integer as a float, and nothing else. -/
def promote : Scalar A → Scalar A
  | .int n => .float (A.toReal n)
  | x => x

/-- Arithmetic on two numbers. There is no remainder of floats. -/
def combine (op : BinaryOp) : Scalar A → Scalar A → Option (Scalar A)
  | .int m, .int n => some (.int (A.whole.combine op m n))
  | .int m, .float y => reals (A.toReal m) y
  | .float x, .int n => reals x (A.toReal n)
  | .float x, .float y => reals x y
  | _, _ => none
where
  reals (x y : A.Real) : Option (Scalar A) :=
    if op = .modulo then none else some (.float (A.real.combine op x y))

def compare (op : BinaryOp) : Scalar A → Scalar A → Option Bool
  | .int m, .int n => some (A.whole.compare op m n)
  | .int m, .float y => some (A.real.compare op (A.toReal m) y)
  | .float x, .int n => some (A.real.compare op x (A.toReal n))
  | .float x, .float y => some (A.real.compare op x y)
  | _, _ => none

def same : Scalar A → Scalar A → Option Bool
  | .bool a, .bool b => some (a == b)
  | x, y => compare .equal x y

def negate : Scalar A → Option (Scalar A)
  | .bool _ => none
  | .int n => some (.int (A.whole.negate n))
  | .float x => some (.float (A.real.negate x))

@[simp] lemma kind_ofCarrier (kind : Kind) (x : kind.Carrier A) : (ofCarrier kind x).kind = kind := by
  cases kind <;> rfl

@[simp] lemma kind_convert (tgt : Kind) (x : Scalar A) : (x.convert tgt).kind = tgt := by
  cases x <;> exact kind_ofCarrier _ _

@[simp] lemma kind_ofLiteral (val : Literal) : (ofLiteral val : Scalar A).kind = val.kind := by
  cases val <;> rfl

lemma exists_combine {op : BinaryOp} {x y : Scalar A} {kind : Kind}
    (met : x.kind.unify? y.kind = some kind) (whole : op = .modulo → kind = .int) :
    ∃ z, x.combine op y = some z ∧ z.kind = kind := by
  have float (x' y' : A.Real) (isF : kind = .float) :
      ∃ z : Scalar A, combine.reals op x' y' = some z ∧ z.kind = kind := by
    have notModulo : op ≠ .modulo := fun isModulo => by cases isF.symm.trans (whole isModulo)
    exact ⟨_, if_neg notModulo, isF.symm⟩
  cases x <;> cases y <;> simp only [Scalar.kind, Kind.unify?, Option.some.injEq, reduceCtorEq] at met
  · exact ⟨_, rfl, met⟩
  all_goals exact float _ _ met.symm

lemma exists_compare (op : BinaryOp) {x y : Scalar A} {kind : Kind}
    (met : x.kind.unify? y.kind = some kind) : ∃ b, x.compare op y = some b := by
  cases x <;> cases y <;> simp only [Scalar.kind, Kind.unify?, reduceCtorEq] at met <;>
    exact ⟨_, rfl⟩

lemma exists_same {x y : Scalar A} (cmpb : x.kind = y.kind ∨ x.kind = .int ∧ y.kind = .float
    ∨ x.kind = .float ∧ y.kind = .int) : ∃ b, x.same y = some b := by
  cases x <;> cases y <;> simp_all [Scalar.kind, same, compare]

lemma exists_negate {x : Scalar A} (num : x.kind.isNumeric) :
    ∃ y, x.negate = some y ∧ y.kind = x.kind := by
  cases x with
  | bool b => cases num
  | int n | float y => exact ⟨_, rfl, rfl⟩

end Scalar

/-! ## Lists of scalars -/

/-- What an operation on pairs gives for two lists of the same length. -/
def zipM {α β γ : Type} (f : α → β → Option γ) : List α → List β → Option (List γ)
  | [], [] => some []
  | a :: as, b :: bs => do return (← f a b) :: (← zipM f as bs)
  | _, _ => none

lemma exists_mapM {α β : Type} {f : α → Option β} {P : β → Prop} {xs : List α}
    (each : ∀ x ∈ xs, ∃ y, f x = some y ∧ P y) :
    ∃ ys, xs.mapM f = some ys ∧ ys.length = xs.length ∧ ∀ y ∈ ys, P y := by
  induction xs with
  | nil => exact ⟨[], rfl, rfl, by simp⟩
  | cons x xs ih =>
    obtain ⟨y, fst, holds⟩ := each x mem_cons_self
    obtain ⟨ys, rest, len, all⟩ := ih fun x mem => each x (mem_cons_of_mem _ mem)
    refine ⟨y :: ys, by simp [mapM_cons, fst, rest], by simp [len], ?_⟩
    simpa using ⟨holds, all⟩

lemma exists_zipM {α β γ : Type} {f : α → β → Option γ} {P : γ → Prop} {as : List α} {bs : List β}
    (len : as.length = bs.length) (each : ∀ a ∈ as, ∀ b ∈ bs, ∃ c, f a b = some c ∧ P c) :
    ∃ cs, zipM f as bs = some cs ∧ cs.length = as.length ∧ ∀ c ∈ cs, P c := by
  induction as generalizing bs with
  | nil =>
    obtain rfl := length_eq_zero_iff.mp len.symm
    exact ⟨[], rfl, rfl, by simp⟩
  | cons a as ih =>
    cases bs with
    | nil => cases len
    | cons b bs =>
      obtain ⟨c, fst, holds⟩ := each a mem_cons_self b mem_cons_self
      obtain ⟨cs, rest, len', all⟩ := ih (Nat.succ.inj len) fun a mem b mem' =>
        each a (mem_cons_of_mem _ mem) b (mem_cons_of_mem _ mem')
      refine ⟨c :: cs, by simp [zipM, fst, rest], by simp [len'], ?_⟩
      simpa using ⟨holds, all⟩

/-- So many scalars of one kind. -/
structure Row (count : Nat) (kind : Kind) (xs : List (Scalar A)) : Prop where
  length : xs.length = count
  kinds : ∀ x ∈ xs, x.kind = kind

namespace Row

variable {count : Nat} {a b kind : Kind} {xs ys : List (Scalar A)}

lemma mapM {f : Scalar A → Option (Scalar A)} (row : Row count a xs)
    (each : ∀ x : Scalar A, x.kind = a → ∃ y, f x = some y ∧ y.kind = kind) :
    ∃ ys, xs.mapM f = some ys ∧ Row count kind ys := by
  obtain ⟨ys, mapped, len, kinds⟩ := exists_mapM fun x mem => each x (row.kinds x mem)
  exact ⟨ys, mapped, len.trans row.length, kinds⟩

lemma zipM {f : Scalar A → Scalar A → Option (Scalar A)} (left : Row count a xs)
    (right : Row count b ys)
    (each : ∀ x y : Scalar A, x.kind = a → y.kind = b → ∃ z, f x y = some z ∧ z.kind = kind) :
    ∃ zs, ShaderAlgebra.zipM f xs ys = some zs ∧ Row count kind zs := by
  obtain ⟨zs, mapped, len, kinds⟩ := exists_zipM (left.length.trans right.length.symm)
    fun x mem y mem' => each x y (left.kinds x mem) (right.kinds y mem')
  exact ⟨zs, mapped, len.trans left.length, kinds⟩

lemma map {f : Scalar A → Scalar A} (row : Row count a xs)
    (each : ∀ x : Scalar A, x.kind = a → (f x).kind = kind) : Row count kind (xs.map f) where
  length := (length_map f).trans row.length
  kinds := by
    simp only [mem_map]
    rintro _ ⟨x, mem, rfl⟩
    exact each x (row.kinds x mem)

end Row

/-- The columns of a matrix. -/
structure Columns (columns rows : Nat) (cs : List (List (Scalar A))) : Prop where
  length : cs.length = columns
  rows : ∀ c ∈ cs, Row rows .float c

namespace Columns

variable {columns rows rows' : Nat} {cs ds : List (List (Scalar A))}

lemma mapM {f : List (Scalar A) → Option (List (Scalar A))} (mat : Columns columns rows cs)
    (each : ∀ c, Row rows .float c → ∃ c', f c = some c' ∧ Row rows' .float c') :
    ∃ cs', cs.mapM f = some cs' ∧ Columns columns rows' cs' := by
  obtain ⟨cs', mapped, len, rows⟩ := exists_mapM fun c mem => each c (mat.rows c mem)
  exact ⟨cs', mapped, len.trans mat.length, rows⟩

lemma zipM {f : List (Scalar A) → List (Scalar A) → Option (List (Scalar A))}
    (left : Columns columns rows cs) (right : Columns columns rows ds)
    (each : ∀ c d, Row rows .float c → Row rows .float d → ∃ c', f c d = some c' ∧ Row rows .float c') :
    ∃ cs', ShaderAlgebra.zipM f cs ds = some cs' ∧ Columns columns rows cs' := by
  obtain ⟨cs', mapped, len, rows⟩ := exists_zipM (left.length.trans right.length.symm)
    fun c mem d mem' => each c d (left.rows c mem) (right.rows d mem')
  exact ⟨cs', mapped, len.trans left.length, rows⟩

end Columns

/-! ## Data -/

/-- The value of an expression, as the machine holds it. A matrix is the list of its columns. -/
inductive Datum (A : Arithmetic) where
  | scalar (x : Scalar A)
  | vector (xs : List (Scalar A))
  | matrix (columns : List (List (Scalar A)))
  | array (elements : List (Datum A))
  | struct (name : String) (members : List (String × Datum A))

namespace Datum

mutual

/-- Whether the datum is one of the type. Only scalars, vectors, matrices, arrays and structs have
data. -/
def HasType : Ty → Datum A → Prop
  | .scalar kind, .scalar x => x.kind = kind
  | .vector size kind, .vector xs => Row size.count kind xs
  | .matrix columns rows, .matrix cs => Columns columns.count rows.count cs
  | .array base size, .array xs => xs.length = size ∧ ∀ x ∈ xs, HasType base x
  | .struct name members, .struct own xs => own = name ∧ HaveTypes members xs
  | _, _ => False

/-- Whether the members are those of a struct, in order. -/
def HaveTypes : List (String × Ty) → List (String × Datum A) → Prop
  | [], [] => True
  | (name, ty) :: members, (own, x) :: xs => own = name ∧ HasType ty x ∧ HaveTypes members xs
  | _, _ => False

end

/-- The operation is defined and gives a datum of the type. -/
def Yields (result : Option (Datum A)) (ty : Ty) : Prop := ∃ v, result = some v ∧ HasType ty v

def ofBool (b : Bool) : Datum A := .scalar (.bool b)

/-! ## Operators -/

def negate : Datum A → Option (Datum A)
  | .scalar x => x.negate.map .scalar
  | .vector xs => (xs.mapM Scalar.negate).map .vector
  | .matrix columns => (columns.mapM (List.mapM Scalar.negate)).map .matrix
  | _ => none

def unary (op : UnaryOp) (v : Datum A) : Option (Datum A) :=
  match op, v with
  | .negate, v => v.negate
  | .not, .scalar (.bool b) => some (ofBool !b)
  | .not, _ => none

/-- Component by component. A scalar meets every component of the other operand. -/
def arithmetic (op : BinaryOp) : Datum A → Datum A → Option (Datum A)
  | .scalar x, .scalar y => (x.combine op y).map .scalar
  | .scalar x, .vector ys => (ys.mapM (x.combine op)).map .vector
  | .vector xs, .scalar y => (xs.mapM fun x => Scalar.combine op x y).map .vector
  | .vector xs, .vector ys => (zipM (Scalar.combine op) xs ys).map .vector
  | .scalar x, .matrix columns => (columns.mapM (List.mapM (x.combine op))).map .matrix
  | .matrix columns, .scalar y =>
    (columns.mapM (List.mapM fun x => Scalar.combine op x y)).map .matrix
  | .matrix left, .matrix right => (zipM (zipM (Scalar.combine op)) left right).map .matrix
  | _, _ => none

/-- The number of rows. -/
def height (columns : List (List (Scalar A))) : Nat := (columns.head?.map List.length).getD 0

/-- The sum of the columns of a matrix, each times its component of a vector. -/
def combination (rows : Nat) : List (List (Scalar A)) → List (Scalar A) → Option (List (Scalar A))
  | [], [] => some (List.replicate rows (.float A.real.zero))
  | c :: cs, x :: xs => do
    zipM (Scalar.combine .add) (← c.mapM fun y => Scalar.combine .multiply y x)
      (← combination rows cs xs)
  | _, _ => none

/-- The sum of the products of two lists. -/
def dot : List (Scalar A) → List (Scalar A) → Option (Scalar A)
  | [], [] => some (.float A.real.zero)
  | x :: xs, y :: ys => do (← x.combine .multiply y).combine .add (← dot xs ys)
  | _, _ => none

def product : Datum A → Datum A → Option (Datum A)
  | .matrix columns, .vector xs => (combination (height columns) columns xs).map .vector
  | .vector xs, .matrix columns => (columns.mapM (dot xs)).map .vector
  | .matrix left, .matrix right => (right.mapM (combination (height left) left)).map .matrix
  | v, w => arithmetic .multiply v w

def compare (op : BinaryOp) : Datum A → Datum A → Option (Datum A)
  | .scalar x, .scalar y => (x.compare op y).map ofBool
  | _, _ => none

/-- Whether the parts of two lists are the same one by one. -/
def sameAll {α : Type} (same : α → α → Option Bool) (xs ys : List α) : Option Bool :=
  (zipM same xs ys).map (·.all id)

def sameRow : List (Scalar A) → List (Scalar A) → Option Bool := sameAll Scalar.same

mutual

/-- Whether two data of one shape are equal in every part. -/
def same : Datum A → Datum A → Option Bool
  | .scalar x, .scalar y => x.same y
  | .vector xs, .vector ys => sameRow xs ys
  | .matrix left, .matrix right => sameAll sameRow left right
  | .array xs, .array ys => sameElements xs ys
  | .struct name xs, .struct other ys => if name = other then sameMembers xs ys else none
  | _, _ => none

def sameElements : List (Datum A) → List (Datum A) → Option Bool
  | [], [] => some true
  | x :: xs, y :: ys => do return (← same x y) && (← sameElements xs ys)
  | _, _ => none

def sameMembers : List (String × Datum A) → List (String × Datum A) → Option Bool
  | [], [] => some true
  | (name, x) :: xs, (other, y) :: ys =>
    if name = other then do return (← same x y) && (← sameMembers xs ys) else none
  | _, _ => none

end

def binary (op : BinaryOp) (v w : Datum A) : Option (Datum A) :=
  match op with
  | .add | .subtract | .divide | .modulo => arithmetic op v w
  | .multiply => product v w
  | .less | .lessEqual | .greater | .greaterEqual => compare op v w
  | .equal => (same v w).map ofBool
  | .notEqual => (same v w).map fun b => ofBool !b
  | .logicalAnd | .logicalOr =>
    match v, w with
    | .scalar (.bool a), .scalar (.bool b) =>
      some (ofBool (if op = .logicalAnd then a && b else a || b))
    | _, _ => none

/-! ## Parts -/

/-- One component alone is a scalar. -/
def ofComponents : List (Scalar A) → Datum A
  | [x] => .scalar x
  | xs => .vector xs

def memberOf (name : String) : List (String × Datum A) → Option (Datum A)
  | [] => none
  | (own, x) :: xs => if name = own then some x else memberOf name xs

/-- The selected components of a vector, or a member of a struct. -/
def field (name : String) : Datum A → Option (Datum A)
  | .vector xs => do
    let selector ← Swizzle.parse? name
    let picked ← selector.pattern.mapM fun component => xs[component.index]?
    return ofComponents picked
  | .struct _ xs => memberOf name xs
  | _ => none

/-- The number of elements that an index can mean. -/
def extent : Datum A → Nat
  | .vector xs => xs.length
  | .matrix columns => columns.length
  | .array xs => xs.length
  | _ => 0

def element? (v : Datum A) (place : Nat) : Option (Datum A) :=
  match v with
  | .vector xs => xs[place]?.map .scalar
  | .matrix columns => columns[place]?.map .vector
  | .array xs => xs[place]?
  | _ => none

/-- The place that an index means, if it is a whole number from zero on. -/
def place? : Datum A → Option Nat
  | .scalar (.int n) => (A.position n).toNat?
  | _ => none

/-! ## Constructors -/

/-- The components of a scalar, vector or matrix, column by column. -/
def scalars? : Datum A → Option (List (Scalar A))
  | .scalar x => some [x]
  | .vector xs => some xs
  | .matrix columns => some columns.flatten
  | _ => none

/-- The matrix with the given components. -/
def tabulate (columns rows : Nat) (entry : (column row : Nat) → Scalar A) : Datum A :=
  .matrix ((List.range columns).map fun column => (List.range rows).map (entry column))

/-- One on the diagonal and zero elsewhere, times a number. -/
def diagonal (x : Scalar A) (column row : Nat) : Scalar A :=
  if column = row then x else .float A.real.zero

/-- The vector of the first components of all arguments. -/
def vectorOf (size : Dim) (kind : Kind) (arguments : List (Datum A)) : Option (Datum A) := do
  let xs := (← arguments.mapM scalars?).flatten
  if size.count ≤ xs.length then return .vector ((xs.take size.count).map (·.convert kind))
  else none

/-- The matrix with the components of all arguments, column by column. -/
def matrixOf (columns rows : Dim) (arguments : List (Datum A)) : Option (Datum A) := do
  let xs := (← arguments.mapM scalars?).flatten
  if xs.length = columns.count * rows.count then
    return .matrix ((List.range columns.count).map fun column =>
      ((xs.drop (column * rows.count)).take rows.count).map (·.convert .float))
  else none

/-- The value of a constructor of scalars, vectors and matrices. A scalar is made of the first
component of its argument. One scalar fills a vector or the diagonal of a matrix, and one matrix is
cut or filled up with the identity. Otherwise the components of the arguments are used in order. -/
def construct (ty : Ty) (arguments : List (Datum A)) : Option (Datum A) :=
  match ty, arguments with
  | .scalar kind, [v] => do return .scalar ((← (← v.scalars?).head?).convert kind)
  | .vector size kind, [.scalar x] =>
    some (.vector (List.replicate size.count (x.convert kind)))
  | .matrix columns rows, [.scalar x] =>
    some (tabulate columns.count rows.count (diagonal (x.convert .float)))
  | .matrix columns rows, [.matrix given] =>
    some (tabulate columns.count rows.count fun column row =>
      (given[column]?.bind (·[row]?)).getD (diagonal (.float A.real.one) column row))
  | .vector size kind, vs => vectorOf size kind vs
  | .matrix columns rows, vs => matrixOf columns rows vs
  | _, _ => none

/-- Integers where the type asks for floats become floats. -/
def promote : Ty → Datum A → Datum A
  | .scalar .float, .scalar x => .scalar x.promote
  | .vector _ .float, .vector xs => .vector (xs.map Scalar.promote)
  | _, v => v

/-- The members of a struct from its arguments, one to a member. -/
def assemble : List (String × Ty) → List (Datum A) → Option (List (String × Datum A))
  | [], [] => some []
  | (name, ty) :: members, v :: vs => do return (name, v.promote ty) :: (← assemble members vs)
  | _, _ => none

/-- The value of a struct constructor. -/
def constructStruct (ty : Ty) (arguments : List (Datum A)) : Option (Datum A) :=
  match ty with
  | .struct name members => (assemble members arguments).map (.struct name)
  | _ => none

/-! ## What the data of a type are -/

section Inversion

variable {v : Datum A}

lemma exists_scalar {kind : Kind} (typed : HasType (.scalar kind) v) :
    ∃ x, v = .scalar x ∧ x.kind = kind := by
  cases v with
  | scalar x => exact ⟨x, rfl, typed⟩
  | _ => exact typed.elim

lemma exists_vector {size : Dim} {kind : Kind} (typed : HasType (.vector size kind) v) :
    ∃ xs, v = .vector xs ∧ Row size.count kind xs := by
  cases v with
  | vector xs => exact ⟨xs, rfl, typed⟩
  | _ => exact typed.elim

lemma exists_matrix {columns rows : Dim} (typed : HasType (.matrix columns rows) v) :
    ∃ cs, v = .matrix cs ∧ Columns columns.count rows.count cs := by
  cases v with
  | matrix cs => exact ⟨cs, rfl, typed⟩
  | _ => exact typed.elim

lemma exists_array {base : Ty} {size : Nat} (typed : HasType (.array base size) v) :
    ∃ xs, v = .array xs ∧ xs.length = size ∧ ∀ x ∈ xs, HasType base x := by
  cases v with
  | array xs => exact ⟨xs, rfl, typed⟩
  | _ => exact typed.elim

lemma exists_struct {name : String} {mems : List (String × Ty)}
    (typed : HasType (.struct name mems) v) : ∃ xs, v = .struct name xs ∧ HaveTypes mems xs := by
  cases v with
  | struct own xs =>
    obtain ⟨rfl, tys⟩ := typed
    exact ⟨xs, rfl, tys⟩
  | _ => exact typed.elim

end Inversion

lemma Yields.map {α : Type} {res : Option α} {make : α → Datum A} {P : α → Prop} {ty : Ty}
    (found : ∃ x, res = some x ∧ P x) (typed : ∀ x, P x → HasType ty (make x)) :
    Yields (res.map make) ty := by
  obtain ⟨x, rfl, holds⟩ := found
  exact ⟨make x, rfl, typed x holds⟩

end Datum

end ShaderAlgebra
