/-!
# Types of shader values

Scalars of three kinds, vectors of two to four of them, float matrices, arrays, structs and function
signatures. A node that has not been checked yet has the type `unknown`.

A struct type carries its members. One without members is a reference by name, which a table of
declared structs can complete.

Types have decidable equality. It is written out by hand, since the type is nested in its own member
and parameter lists.
-/

namespace ShaderAlgebra

/-- The kind of a scalar, or of the components of a vector. -/
inductive Kind where
  | bool
  | int
  | float
deriving DecidableEq, Repr

namespace Kind

/-- Whether the kind has arithmetic. -/
def isNumeric : Kind → Bool
  | .bool => false
  | .int | .float => true

/-- The numeric kind that two operands meet in: an `int` beside a `float` is converted. -/
def unify? : Kind → Kind → Option Kind
  | .int, .int => some .int
  | .float, .float | .int, .float | .float, .int => some .float
  | .bool, _ | _, .bool => none

end Kind

/-- The number of components of a vector, or of columns or rows of a matrix. -/
inductive Dim where
  | two
  | three
  | four
deriving DecidableEq, Repr

namespace Dim

def count : Dim → Nat
  | .two => 2
  | .three => 3
  | .four => 4

def ofCount? : Nat → Option Dim
  | 2 => some .two
  | 3 => some .three
  | 4 => some .four
  | _ => none

end Dim

/-- The type of a shader value. -/
inductive Ty where
  /-- No value; a function result only. -/
  | void
  | scalar (kind : Kind)
  | vector (size : Dim) (kind : Kind)
  /-- A float matrix, stored as column vectors. -/
  | matrix (columns rows : Dim)
  | array (base : Ty) (size : Nat)
  | struct (name : String) (members : List (String × Ty))
  | function (parameters : List Ty) (result : Ty)
  /-- Not inferred yet. -/
  | unknown
deriving Repr, Inhabited

namespace Ty

/-! ## Equality -/

mutual

/-- Whether two types are the same. -/
def same : Ty → Ty → Bool
  | .void, .void => true
  | .scalar k, .scalar l => k == l
  | .vector m k, .vector n l => m == n && k == l
  | .matrix c r, .matrix d s => c == d && r == s
  | .array b m, .array c n => same b c && m == n
  | .struct a ms, .struct b ns => a == b && sameMembers ms ns
  | .function ps r, .function qs s => sameList ps qs && same r s
  | .unknown, .unknown => true
  | _, _ => false

/-- Whether two member lists have the same names and types. -/
def sameMembers : List (String × Ty) → List (String × Ty) → Bool
  | [], [] => true
  | (a, s) :: ms, (b, t) :: ns => a == b && same s t && sameMembers ms ns
  | _, _ => false

/-- Whether two lists hold the same types. -/
def sameList : List Ty → List Ty → Bool
  | [], [] => true
  | s :: ss, t :: ts => same s t && sameList ss ts
  | _, _ => false

end

mutual

theorem same_self : (t : Ty) → same t t = true
  | .void | .scalar _ | .vector .. | .matrix .. | .unknown => by simp [same]
  | .array b _ => by simp [same, same_self b]
  | .struct _ ms => by simp [same, sameMembers_self ms]
  | .function ps r => by simp [same, sameList_self ps, same_self r]

theorem sameMembers_self : (ms : List (String × Ty)) → sameMembers ms ms = true
  | [] => by simp [sameMembers]
  | (_, t) :: ms => by simp [sameMembers, same_self t, sameMembers_self ms]

theorem sameList_self : (ts : List Ty) → sameList ts ts = true
  | [] => by simp [sameList]
  | t :: ts => by simp [sameList, same_self t, sameList_self ts]

end

mutual

theorem eq_of_same : (s t : Ty) → same s t = true → s = t
  | .void, t, h => by cases t <;> simp_all [same]
  | .unknown, t, h => by cases t <;> simp_all [same]
  | .scalar _, t, h => by cases t <;> simp_all [same]
  | .vector .., t, h => by cases t <;> simp_all [same]
  | .matrix .., t, h => by cases t <;> simp_all [same]
  | .array b _, t, h => by
    cases t with
    | array c _ =>
      simp only [same, Bool.and_eq_true, beq_iff_eq] at h
      rw [eq_of_same b c h.1, h.2]
    | _ => simp [same] at h
  | .struct _ ms, t, h => by
    cases t with
    | struct _ ns =>
      simp only [same, Bool.and_eq_true, beq_iff_eq] at h
      rw [h.1, eq_of_sameMembers ms ns h.2]
    | _ => simp [same] at h
  | .function ps r, t, h => by
    cases t with
    | function qs s =>
      simp only [same, Bool.and_eq_true] at h
      rw [eq_of_sameList ps qs h.1, eq_of_same r s h.2]
    | _ => simp [same] at h

theorem eq_of_sameMembers :
    (ms ns : List (String × Ty)) → sameMembers ms ns = true → ms = ns
  | [], [], _ => rfl
  | [], _ :: _, h => by simp [sameMembers] at h
  | _ :: _, [], h => by simp [sameMembers] at h
  | (_, s) :: ms, (_, t) :: ns, h => by
    simp only [sameMembers, Bool.and_eq_true, beq_iff_eq] at h
    rw [h.1.1, eq_of_same s t h.1.2, eq_of_sameMembers ms ns h.2]

theorem eq_of_sameList : (ss ts : List Ty) → sameList ss ts = true → ss = ts
  | [], [], _ => rfl
  | [], _ :: _, h => by simp [sameList] at h
  | _ :: _, [], h => by simp [sameList] at h
  | s :: ss, t :: ts, h => by
    simp only [sameList, Bool.and_eq_true] at h
    rw [eq_of_same s t h.1, eq_of_sameList ss ts h.2]

end

instance : DecidableEq Ty := fun s t =>
  if h : same s t = true then isTrue (eq_of_same s t h)
  else isFalse fun e => h (e ▸ same_self s)

/-! ## Common types -/

def bool : Ty := .scalar .bool

def int : Ty := .scalar .int

def float : Ty := .scalar .float

/-- A float vector. -/
def vec (size : Dim) : Ty := .vector size .float

/-- A square matrix. -/
def mat (size : Dim) : Ty := .matrix size size

/-! ## Shape -/

mutual

/-- Whether no part of the type is unknown. -/
def isKnown : Ty → Bool
  | .unknown => false
  | .array base _ => isKnown base
  | .struct _ members => areMembersKnown members
  | .function parameters result => areKnown parameters && isKnown result
  | .void | .scalar _ | .vector .. | .matrix .. => true

def areMembersKnown : List (String × Ty) → Bool
  | [] => true
  | (_, t) :: members => isKnown t && areMembersKnown members

def areKnown : List Ty → Bool
  | [] => true
  | t :: ts => isKnown t && areKnown ts

end

/-- The kind of the components of a scalar, vector or matrix. -/
def kind? : Ty → Option Kind
  | .scalar kind | .vector _ kind => some kind
  | .matrix .. => some .float
  | _ => none

def isScalar : Ty → Bool
  | .scalar _ => true
  | _ => false

def isVector : Ty → Bool
  | .vector .. => true
  | _ => false

def isMatrix : Ty → Bool
  | .matrix .. => true
  | _ => false

/-- Whether the type is `float` or a float vector, the generic type of most built-in functions. -/
def isGenericFloat : Ty → Bool
  | .scalar .float | .vector _ .float => true
  | _ => false

/-- The size of a vector. -/
def size? : Ty → Option Dim
  | .vector size _ => some size
  | _ => none

/-- The number of scalars in a scalar, vector or matrix. -/
def componentCount? : Ty → Option Nat
  | .scalar _ => some 1
  | .vector size _ => some size.count
  | .matrix columns rows => some (columns.count * rows.count)
  | _ => none

/-- The same scalar or vector shape with components of another kind. -/
def withKind? (kind : Kind) : Ty → Option Ty
  | .scalar _ => some (.scalar kind)
  | .vector size _ => some (.vector size kind)
  | _ => none

/-- The type of an element: of an array its base, of a vector a component, of a matrix a column. -/
def element? : Ty → Option Ty
  | .array base _ => some base
  | .vector _ kind => some (.scalar kind)
  | .matrix _ rows => some (vec rows)
  | _ => none

/-- The type of the first member of a struct with the given name. -/
def member? (name : String) : Ty → Option Ty
  | .struct _ members => members.lookup name
  | _ => none

/-- Whether a value converts without being asked to: to its own type, and from `int` to `float` at
the same scalar or vector shape. -/
def convertsTo (source target : Ty) : Bool :=
  source = target ||
    match source, target with
    | .scalar .int, .scalar .float => true
    | .vector m .int, .vector n .float => m = n
    | _, _ => false

end Ty

end ShaderAlgebra
