import ShaderAlgebra.Proofs.Semantics.Exact
import ShaderAlgebra.Script.Shape

/-!
# Values of scripts

What lowered expressions calculate with, in exact arithmetic: numbers, booleans and arrays of
numbers. A vector is the array of its components and a matrix the array of its columns, one after
the other.

An operation gives nothing where it has no meaning: on arrays of a wrong length, on values of
another sort, and on a division by zero. The lemmas at the end say what the operations make of
vectors and matrices that are given by their components, and later proofs use these alone.
-/

namespace ShaderAlgebra.Script

open List

inductive Value where
  | number (q : Rat)
  | boolean (b : Bool)
  | array (items : List Rat)
deriving DecidableEq, Repr

namespace Value

/-- The vector with the given components. -/
def vector (size : Dim) (f : Nat → Rat) : Value := .array ((range size.count).map f)

/-- A square table of numbers, column by column. -/
def table (n : Nat) (f : (column row : Nat) → Rat) : Value :=
  .array ((range n).flatMap fun column => (range n).map (f column))

/-- The matrix with the given components. -/
def matrix (size : Dim) (f : (column row : Nat) → Rat) : Value := table size.count f

def number? : Value → Option Rat
  | .number q => some q
  | _ => none

/-- The natural number that a value is. -/
def natural? : Value → Option Nat
  | .number q => if q.den = 1 then q.num.toNat? else none
  | _ => none

/-- The components of a vector of a given size. -/
def vector? (size : Dim) : Value → Option (Nat → Rat)
  | .array items =>
    if items.length = size.count then some fun i => items[i]?.getD 0 else none
  | _ => none

/-- The components of a matrix of a given size, by column and row. -/
def matrix? (size : Dim) : Value → Option (Nat → Nat → Rat)
  | .array items =>
    if items.length = size.count * size.count then
      some fun column row => items[column * size.count + row]?.getD 0
    else none
  | _ => none

/-- The numbers that an argument of a constructor brings. -/
def items? : Value → Option (List Rat)
  | .number q => some [q]
  | .array items => some items
  | .boolean _ => none

/-- The item of an array at an index. -/
def element? (base position : Value) : Option Value :=
  match base, position.natural? with
  | .array items, some i => items[i]?.map .number
  | _, _ => none

/-! ## Operators -/

def unary? : UnaryOp → Value → Option Value
  | .negate, .number a => some (.number (-a))
  | .not, .boolean a => some (.boolean !a)
  | _, _ => none

/-- An operator of two numbers. The remainder has the sign of the dividend. -/
def combine? (op : BinaryOp) (a b : Rat) : Option Value :=
  match op with
  | .add => some (.number (a + b))
  | .subtract => some (.number (a - b))
  | .multiply => some (.number (a * b))
  | .divide => if b = 0 then none else some (.number (a / b))
  | .modulo => if b = 0 then none else some (.number (a - b * integerPart (a / b)))
  | .less => some (.boolean (a < b))
  | .lessEqual => some (.boolean (a ≤ b))
  | .greater => some (.boolean (b < a))
  | .greaterEqual => some (.boolean (b ≤ a))
  | .equal => some (.boolean (a = b))
  | .notEqual => some (.boolean (a ≠ b))
  | .logicalAnd | .logicalOr => none

def binary? : BinaryOp → Value → Value → Option Value
  | op, .number a, .number b => combine? op a b
  | .equal, .boolean a, .boolean b => some (.boolean (a == b))
  | .notEqual, .boolean a, .boolean b => some (.boolean (a != b))
  | _, _, _ => none

/-! ## Vectors and matrices -/

/-- A vector, component by component. -/
def mapVector (size : Dim) (f : Rat → Rat) (a : Value) : Option Value := do
  let x ← a.vector? size
  return .vector size fun i => f (x i)

/-- Two vectors, component by component. -/
def zipVectors (size : Dim) (f : Rat → Rat → Rat) (a b : Value) : Option Value := do
  let x ← a.vector? size
  let y ← b.vector? size
  return .vector size fun i => f (x i) (y i)

def mapMatrix (size : Dim) (f : Rat → Rat) (a : Value) : Option Value := do
  let x ← a.matrix? size
  return .matrix size fun column row => f (x column row)

def zipMatrices (size : Dim) (f : Rat → Rat → Rat) (a b : Value) : Option Value := do
  let x ← a.matrix? size
  let y ← b.matrix? size
  return .matrix size fun column row => f (x column row) (y column row)

def divideVectors (size : Dim) (a b : Value) : Option Value := do
  let y ← b.vector? size
  if ∀ i < size.count, y i ≠ 0 then zipVectors size (· / ·) a b else none

/-- The image of a vector under a matrix. -/
def transformVector (size : Dim) (a m : Value) : Option Value := do
  let x ← a.vector? size
  let y ← m.matrix? size
  return .vector size fun row => ((range size.count).map fun i => y i row * x i).sum

def equalVectors (size : Dim) (a b : Value) : Option Value := do
  let x ← a.vector? size
  let y ← b.vector? size
  return .boolean (∀ i < size.count, x i = y i)

/-- The product of two matrices. -/
def multiplyMatrices (size : Dim) (a b : Value) : Option Value := do
  let x ← a.matrix? size
  let y ← b.matrix? size
  return .matrix size fun column row =>
    ((range size.count).map fun i => x i row * y column i).sum

def transposeMatrix (size : Dim) (a : Value) : Option Value := do
  let x ← a.matrix? size
  return .matrix size fun column row => x row column

def equalMatrices (size : Dim) (a b : Value) : Option Value := do
  let x ← a.matrix? size
  let y ← b.matrix? size
  return .boolean (∀ column < size.count, ∀ row < size.count, x column row = y column row)

/-- An array of a given number of numbers. -/
def gather (count : Nat) (values : List Value) : Option Value := do
  let numbers ← values.mapM number?
  if numbers.length = count then some (.array numbers) else none

/-- The first numbers of a list, filled up with zeros. -/
def fitted (count : Nat) (items : List Rat) : Value :=
  .array (items.take count ++ List.replicate (count - items.length) 0)

/-- The numbers of some parts, as many as are needed. -/
def concatenate (count : Nat) (parts : List Value) : Option Value := do
  let items ← parts.mapM items?
  return fitted count items.flatten

/-- The arguments of a matrix constructor: one number fills the diagonal. -/
def fillMatrix (n : Nat) (parts : List Value) : Option Value :=
  match parts with
  | [.number q] => some (table n fun column row => if column = row then q else 0)
  | parts => concatenate (n * n) parts

/-- A matrix of another size, filled up with the identity. -/
def resizeMatrix (n m : Nat) (source : Value) : Option Value :=
  match source with
  | .array items => some (table n fun column row =>
      if column < m ∧ row < m then items[column * m + row]?.getD 0
      else if column = row then 1 else 0)
  | _ => none

/-- The items of an array at given places. -/
def pick (source : Value) (positions : List Value) : Option Value :=
  match source with
  | .array items => do
    let places ← positions.mapM natural?
    let picked ← places.mapM fun i => items[i]?
    return .array picked
  | _ => none

/-- One of the columns of `n` items that an array consists of. -/
def slice (source : Value) (n i : Nat) : Option Value :=
  match source with
  | .array items => some (.array ((items.drop (i * n)).take n))
  | _ => none

/-! ## Vectors and matrices by their components -/

lemma natural?_natCast (n : Nat) : natural? (.number (n : Rat)) = some n := rfl

lemma vector_congr {size : Dim} {f g : Nat → Rat} (same : ∀ i < size.count, f i = g i) :
    vector size f = vector size g :=
  congrArg array (map_congr_left fun i mem => same i (mem_range.mp mem))

lemma matrix_congr {size : Dim} {f g : Nat → Nat → Rat}
    (same : ∀ col < size.count, ∀ row < size.count, f col row = g col row) :
    matrix size f = matrix size g :=
  congrArg array (flatMap_congr fun col mem =>
    map_congr_left fun row mem' =>
      same col (mem_range.mp mem) row (mem_range.mp mem'))

/-- The item of a table that is stored by columns. -/
lemma getElem?_table (f : Nat → Nat → Rat) {cols rows col row : Nat}
    (inCols : col < cols) (inRows : row < rows) :
    ((range cols).flatMap fun c => (range rows).map (f c))[col * rows + row]?
      = some (f col row) := by
  induction cols with
  | zero => cases inCols
  | succ cols ih =>
    have length : ((range cols).flatMap fun c => (range rows).map (f c)).length
        = cols * rows := by simp
    rw [range_succ, flatMap_append, flatMap_singleton]
    by_cases earlier : col < cols
    · have inside : col * rows + row < cols * rows := by
        have whole := Nat.mul_le_mul_right rows (Nat.succ_le_of_lt earlier)
        rw [Nat.succ_mul] at whole
        omega
      rw [getElem?_append_left (by omega)]
      exact ih earlier
    · obtain rfl : col = cols := by omega
      simp [inRows]

lemma fitted_eq (count : Nat) (items : List Rat) :
    fitted count items = .array ((range count).map fun i => items[i]?.getD 0) := by
  refine congrArg array (ext_getElem? fun i => ?_)
  by_cases inside : i < count
  · by_cases given : i < items.length
    · rw [getElem?_append_left (by simp [inside, given]), getElem?_take_of_lt inside]
      simp [inside, given]
    · have beyond : items[i]? = none := getElem?_eq_none (by omega)
      rw [getElem?_append_right (by simp; omega), getElem?_replicate, if_pos (by simp; omega)]
      simp [inside, beyond]
  · rw [getElem?_eq_none (by simp; omega), getElem?_eq_none (by simpa using inside)]

/-- A list with as many numbers as are needed is taken as it is. -/
lemma range_map_getD {items : List Rat} {count : Nat} (length : items.length = count) :
    (range count).map (fun i => items[i]?.getD 0) = items := by
  subst length
  refine ext_getElem? fun i => ?_
  by_cases inside : i < items.length <;> simp [inside]

/-- A list that is cut into columns. -/
lemma table_of_list (n : Nat) (f : Nat → Rat) :
    table n (fun col row => f (col * n + row)) = .array ((range (n * n)).map f) := by
  have cols (m : Nat) : ((range m).flatMap fun col =>
      (range n).map fun row => f (col * n + row)) = (range (m * n)).map f := by
    induction m with
    | zero => simp
    | succ m ih =>
      rw [range_succ, flatMap_append, ih, Nat.succ_mul, range_add, map_append,
        flatMap_singleton, map_map]
      rfl
  exact congrArg array (cols n)

section Read

variable (size : Dim)

lemma vector?_vector (x : Nat → Rat) :
    (vector size x).vector? size = some fun i => ((range size.count).map x)[i]?.getD 0 := by
  simp [vector?, vector]

lemma matrix?_matrix (x : Nat → Nat → Rat) : (matrix size x).matrix? size = some fun col row =>
      ((range size.count).flatMap fun c =>
        (range size.count).map (x c))[col * size.count + row]?.getD 0 := by
  simp [matrix?, matrix, table]

lemma mapVector_vector (f : Rat → Rat) (x : Nat → Rat) :
    mapVector size f (vector size x) = some (vector size fun i => f (x i)) := by
  rw [mapVector, vector?_vector]
  exact congrArg some (vector_congr fun i inside => by simp [inside])

lemma zipVectors_vector (f : Rat → Rat → Rat) (x y : Nat → Rat) :
    zipVectors size f (vector size x) (vector size y)
      = some (vector size fun i => f (x i) (y i)) := by
  rw [zipVectors, vector?_vector, vector?_vector]
  exact congrArg some (vector_congr fun i inside => by simp [inside])

lemma divideVectors_vector (x : Nat → Rat) {y : Nat → Rat} (nonzero : ∀ i < size.count, y i ≠ 0) :
    divideVectors size (vector size x) (vector size y) = some (vector size fun i => x i / y i) := by
  rw [divideVectors, vector?_vector]
  refine (if_pos fun i inside => ?_).trans (zipVectors_vector size _ x y)
  simpa [inside] using nonzero i inside

lemma transformVector_vector (x : Nat → Rat) (m : Nat → Nat → Rat) :
    transformVector size (vector size x) (matrix size m) = some (vector size fun row =>
          ((range size.count).map fun i => m i row * x i).sum) := by
  rw [transformVector, vector?_vector, matrix?_matrix]
  refine congrArg some (vector_congr fun row inRows => congrArg List.sum ?_)
  refine map_congr_left fun i mem => ?_
  have inside := mem_range.mp mem
  simp [getElem?_table m inside inRows, inside]

lemma equalVectors_vector (x y : Nat → Rat) : equalVectors size (vector size x) (vector size y)
      = some (.boolean (∀ i < size.count, x i = y i)) := by
  rw [equalVectors, vector?_vector, vector?_vector]
  refine congrArg (some ∘ boolean) (decide_eq_decide.mpr ?_)
  exact forall₂_congr fun i inside => by simp [inside]

lemma mapMatrix_matrix (f : Rat → Rat) (x : Nat → Nat → Rat) : mapMatrix size f (matrix size x)
      = some (matrix size fun col row => f (x col row)) := by
  rw [mapMatrix, matrix?_matrix]
  refine congrArg some (matrix_congr fun col inCols row inRows => ?_)
  simp [getElem?_table x inCols inRows]

lemma zipMatrices_matrix (f : Rat → Rat → Rat) (x y : Nat → Nat → Rat) :
    zipMatrices size f (matrix size x) (matrix size y)
      = some (matrix size fun col row => f (x col row) (y col row)) := by
  rw [zipMatrices, matrix?_matrix, matrix?_matrix]
  refine congrArg some (matrix_congr fun col inCols row inRows => ?_)
  simp [getElem?_table _ inCols inRows]

lemma multiplyMatrices_matrix (x y : Nat → Nat → Rat) :
    multiplyMatrices size (matrix size x) (matrix size y) = some (matrix size fun col row =>
          ((range size.count).map fun i => x i row * y col i).sum) := by
  rw [multiplyMatrices, matrix?_matrix, matrix?_matrix]
  refine congrArg some (matrix_congr fun col inCols row inRows =>
    congrArg List.sum (map_congr_left fun i mem => ?_))
  have inside := mem_range.mp mem
  simp [getElem?_table x inside inRows, getElem?_table y inCols inside]

lemma transposeMatrix_matrix (x : Nat → Nat → Rat) : transposeMatrix size (matrix size x)
      = some (matrix size fun col row => x row col) := by
  rw [transposeMatrix, matrix?_matrix]
  refine congrArg some (matrix_congr fun col inCols row inRows => ?_)
  simp [getElem?_table x inRows inCols]

lemma equalMatrices_matrix (x y : Nat → Nat → Rat) :
    equalMatrices size (matrix size x) (matrix size y)
      = some (.boolean (∀ col < size.count, ∀ row < size.count, x col row = y col row)) := by
  rw [equalMatrices, matrix?_matrix, matrix?_matrix]
  refine congrArg (some ∘ boolean) (decide_eq_decide.mpr ?_)
  refine forall₂_congr fun col inCols => forall₂_congr fun row inRows => ?_
  simp [getElem?_table _ inCols inRows]

lemma resizeMatrix_matrix (n : Nat) (x : Nat → Nat → Rat) :
    resizeMatrix n size.count (matrix size x) = some (table n fun col row =>
          if col < size.count ∧ row < size.count then x col row
          else if col = row then 1 else 0) := by
  refine congrArg (some ∘ table n) (funext fun col => funext fun row => ?_)
  split
  · next inside => rw [getElem?_table x inside.1 inside.2, Option.getD_some]
  · rfl

lemma pick_vector (x : Nat → Rat) {places : List Nat}
    (inside : ∀ place ∈ places, place < size.count) :
    pick (vector size x) (places.map fun place => .number (place : Nat))
      = some (.array (places.map x)) := by
  have positions : (places.map fun place => Value.number (place : Nat)).mapM natural?
      = some places :=
    mapM_map_eq_some natural?_natCast places
  have picked : places.mapM (fun i => ((range size.count).map x)[i]?) = some (places.map x) :=
    mapM_eq_some_map fun place mem => by simp [inside place mem]
  simp only [pick, vector, positions, picked, Option.bind_eq_bind, Option.bind_some,
    Option.pure_def]

lemma slice_matrix (x : Nat → Nat → Rat) {col : Nat} (inside : col < size.count) :
    slice (matrix size x) size.count col = some (vector size (x col)) := by
  refine congrArg (some ∘ array) (ext_getElem? fun row => ?_)
  by_cases inRows : row < size.count
  · rw [getElem?_take_of_lt inRows, getElem?_drop, getElem?_table x inside inRows]
    simp [inRows]
  · simp [inRows]

lemma element?_vector (x : Nat → Rat) {i : Nat} (inside : i < size.count) :
    element? (vector size x) (.number i) = some (.number (x i)) := by
  simp [element?, vector, natural?_natCast, inside]

lemma element?_matrix (x : Nat → Nat → Rat) {col row : Nat} (inCols : col < size.count)
    (inRows : row < size.count) :
    element? (matrix size x) (.number (col * size.count + row : Nat))
      = some (.number (x col row)) := by
  simp only [element?, matrix, table, natural?_natCast, getElem?_table x inCols inRows,
    Option.map_some]

end Read

lemma gather_number {count : Nat} {numbers : List Rat} (length : numbers.length = count) :
    gather count (numbers.map .number) = some (.array numbers) := by
  have reads (q : Rat) : number? (.number q) = some q := rfl
  rw [gather, mapM_map_eq_some reads numbers]
  exact if_pos length

end Value

end ShaderAlgebra.Script
