import ShaderAlgebra.Proofs.Script.Evaluation

/-!
# Shader values in scripts

`Value.represent` is what stands for a value of a shader in a script, by the shape of its type: a
number, a boolean, the array of a vector's components, or the array of a matrix's columns.

The lemmas here say how the operations on values of shaders look through it, each in the operations
on values of scripts. They do not mention lowering.
-/

namespace ShaderAlgebra

open List
open Script.Value (boolean matrix matrix_congr number vector vector_congr)

open Ty (mat binary? vec int)

/-! ## Shapes -/

/-- Whether values of a type have a shape. -/
def Shape.Fits : Shape → Ty → Prop
  | .number, ty => ty = Ty.int ∨ ty = Ty.float
  | .boolean, ty => ty = Ty.bool
  | .vector size, ty => ty = .vec size
  | .matrix size, ty => ty = .mat size
  | .aggregate, _ => True

lemma Ty.fits_of_shape? {ty : Ty} {shape : Shape} (shaped : ty.shape? = some shape) :
    shape.Fits ty := by
  cases ty with
  | scalar kind => cases kind <;> cases shaped <;> simp [Shape.Fits, int, Ty.float, Ty.bool]
  | vector size kind =>
    cases kind <;> cases shaped
    rfl
  | matrix cols rows =>
    simp only [shape?] at shaped
    split at shaped
    · next square =>
      cases shaped
      rw [square]
      rfl
    · cases shaped
  | array base size =>
    obtain ⟨_, _, rfl⟩ := Option.map_eq_some_iff.mp shaped
    trivial
  | struct name members =>
    cases shaped
    trivial
  | _ => cases shaped

lemma Ty.shape?_mat (size : Dim) : (mat size).shape? = some (.matrix size) := if_pos rfl

/-! ## Representation -/

namespace Value

variable {u : Unspecified} {v : Value (.exact u)} {size : Dim}

/-- What stands for a value in a script. -/
def represent (v : Value (.exact u)) : Option Script.Value :=
  match v.ty.shape? with
  | some .number => some (.number (v.part 0))
  | some .boolean => some (.boolean v.truth)
  | some (.vector size) => some (.vector size v.part)
  | some (.matrix size) => some (.matrix size v.cell)
  | some .aggregate | none => none

lemma represent_number (shape : v.ty.shape? = some .number) :
    v.represent = some (.number (v.part 0)) := by
  rw [represent, shape]

lemma represent_vector (shape : v.ty.shape? = some (.vector size)) :
    v.represent = some (.vector size v.part) := by
  rw [represent, shape]

lemma represent_matrix (shape : v.ty.shape? = some (.matrix size)) :
    v.represent = some (.matrix size v.cell) := by
  rw [represent, shape]

lemma represent_boolean (shape : v.ty.shape? = some .boolean) :
    v.represent = some (.boolean v.truth) := by
  rw [represent, shape]

/-- Only a number is represented by a number. -/
lemma shape?_of_represent {q : Rat} (shown : v.represent = some (.number q)) :
    v.ty.shape? = some .number := by
  unfold represent at shown
  split at shown
  · assumption
  all_goals cases shown

/-- A number has the same component everywhere. -/
lemma cell_of_number (shape : v.ty.shape? = some .number) (col row : Nat) :
    v.cell col row = v.part 0 := by
  obtain ⟨ty, x⟩ := v
  rcases Ty.fits_of_shape? shape with rfl | rfl <;> rfl

lemma part_vec (x : Val (.exact u) (.vec size)) {row : Nat} (inside : row < size.count) :
    part ⟨.vec size, x⟩ row = x ⟨row, inside⟩ :=
  dif_pos inside

lemma cell_mat (x : Val (.exact u) (.mat size)) {col row : Nat} (inCols : col < size.count)
    (inRows : row < size.count) : cell ⟨.mat size, x⟩ col row = x ⟨col, inCols⟩ ⟨row, inRows⟩ :=
  dif_pos ⟨inCols, inRows⟩

/-- A vector that is given by its components. -/
lemma represent_build_vector (size : Dim)
    (f : (kind : Kind) → (col row : Nat) → kind.Carrier (.exact u)) :
    (build (.vec size) f).represent = some (.vector size (f .float 0)) := by
  refine congrArg some (vector_congr fun row inside => ?_)
  exact dif_pos inside

/-- A matrix that is given by its components. -/
lemma represent_build_matrix (size : Dim)
    (f : (kind : Kind) → (col row : Nat) → kind.Carrier (.exact u)) :
    (build (.mat size) f).represent = some (.matrix size (f .float)) := by
  rw [represent_matrix (Ty.shape?_mat size)]
  refine congrArg some (matrix_congr fun col inCols row inRows => ?_)
  exact dif_pos ⟨inCols, inRows⟩

end Value

/-! ## Integer parts -/

lemma integerPart_neg (q : Rat) : integerPart (-q) = -integerPart q := by
  rcases lt_trichotomy q 0 with negative | rfl | positive
  · rw [integerPart, integerPart, if_pos negative, if_neg (by linarith), neg_neg]
  · rfl
  · rw [integerPart, integerPart, if_pos (by linarith), if_neg (by linarith), neg_neg]

lemma integerPart_natCast_div (m n : Nat) : integerPart ((m : Rat) / n) = (m / n : Nat) := by
  have nonnegative : ¬((m : Rat) / n < 0) := not_lt.mpr (by positivity)
  rw [integerPart, if_neg nonnegative]
  exact Rat.floor_natCast_div_natCast m n

/-- Division of integers drops the fraction. -/
lemma integerPart_div (a b : Int) : integerPart ((a : Rat) / b) = a.tdiv b := by
  obtain ⟨m, rfl | rfl⟩ := a.eq_nat_or_neg <;> obtain ⟨n, rfl | rfl⟩ := b.eq_nat_or_neg
  · simpa using integerPart_natCast_div m n
  · simpa [div_neg, integerPart_neg] using integerPart_natCast_div m n
  · simpa [neg_div, integerPart_neg] using integerPart_natCast_div m n
  · simpa using integerPart_natCast_div m n

/-! ## Operations on numbers -/

section Numbers

variable {u : Unspecified} {op : BinaryOp} {left right ty : Ty}

open Script.Value (combine?)

lemma combine?_real (arithmetic : op.isCompoundAssignable) {a b : Rat}
    (nonzero : op = .divide ∨ op = .modulo → b ≠ 0) :
    combine? op a b = some (.number ((Arithmetic.exact u).real.combine op a b)) := by
  cases op with
  | add | subtract | multiply => rfl
  | divide =>
    have allowed := nonzero (.inl rfl)
    rw [combine?, if_neg allowed]
    exact congrArg (some ∘ number) (if_neg allowed).symm
  | modulo => exact if_neg (nonzero (.inr rfl))
  | _ => cases arithmetic

/-- Operators of integers are those of rationals, but that a quotient is cut. -/
lemma combine?_whole (arithmetic : op.isCompoundAssignable) {a b : Int}
    (nonzero : op = .divide ∨ op = .modulo → (b : Rat) ≠ 0) :
    ∃ q, combine? op a b = some (.number q)
      ∧ (Arithmetic.exact u).toReal ((Arithmetic.exact u).whole.combine op a b)
        = (if op = .divide then (integerPart q : Rat) else q : Rat) := by
  cases op with
  | add => exact ⟨_, rfl, Value.calculates_add.whole a b trivial⟩
  | subtract => exact ⟨_, rfl, Value.calculates_subtract.whole a b trivial⟩
  | multiply => exact ⟨_, rfl, Value.calculates_multiply.whole a b trivial⟩
  | divide =>
    have allowed := nonzero (.inl rfl)
    refine ⟨a / b, if_neg allowed, ?_⟩
    rw [if_pos rfl, integerPart_div]
    exact congrArg (Int.cast (R := Rat)) (if_neg (by exact_mod_cast allowed))
  | modulo =>
    have allowed := nonzero (.inr rfl)
    refine ⟨_, if_neg allowed, ?_⟩
    have kept : (Arithmetic.exact u).whole.combine .modulo a b = a.tmod b :=
      if_neg (by exact_mod_cast allowed)
    rw [kept, integerPart_div]
    show ((a.tmod b : Int) : Rat) = a - b * (a.tdiv b : Int)
    rw [Int.tmod_def]
    push_cast
    rfl
  | _ => cases arithmetic

/-- Whether the operator orders two numbers. -/
def BinaryOp.IsComparison (op : BinaryOp) : Prop :=
  op = .less ∨ op = .lessEqual ∨ op = .greater ∨ op = .greaterEqual

/-- Only numbers are ordered. -/
lemma Ty.numbers_of_comparison (comparison : op.IsComparison)
    (typed : binary? op left right = some ty) :
    left.shape? = some .number ∧ right.shape? = some .number := by
  have scalars : ∃ a b, left = .scalar a ∧ right = .scalar b ∧ (a.unify? b).isSome := by
    rcases comparison with rfl | rfl | rfl | rfl <;>
      cases left <;> cases right <;> simp_all [binary?] <;> grind
  obtain ⟨a, b, rfl, rfl, unified⟩ := scalars
  cases a <;> cases b <;> cases unified <;> exact ⟨rfl, rfl⟩

lemma Ty.componentWise?_of_binary? (arithmetic : op.isCompoundAssignable)
    (noMatrixLeft : left.isMatrix = false) (noMatrixRight : right.isMatrix = false)
    (typed : binary? op left right = some ty) : componentWise? left right = some ty := by
  cases op with
  | add | subtract | divide => exact typed
  | multiply => simpa [binary?, noMatrixLeft, noMatrixRight] using typed
  | modulo => exact (Option.filter_eq_some_iff.mp typed).1
  | _ => cases arithmetic

lemma Ty.isMatrix_of_number (shape : ty.shape? = some .number) : ty.isMatrix = false := by
  rcases fits_of_shape? shape with rfl | rfl <;> rfl

/-- Two numbers give an integer only if both are. -/
lemma Ty.binary?_numbers (arithmetic : op.isCompoundAssignable)
    (shapeLeft : left.shape? = some .number) (shapeRight : right.shape? = some .number)
    (typed : binary? op left right = some ty) :
    (left = int ∧ right = int ∧ ty = int) ∨ ty = Ty.float := by
  have wise := componentWise?_of_binary? arithmetic (isMatrix_of_number shapeLeft)
    (isMatrix_of_number shapeRight) typed
  rcases fits_of_shape? shapeLeft with rfl | rfl <;>
    rcases fits_of_shape? shapeRight with rfl | rfl <;> cases wise
  · exact .inl ⟨rfl, rfl, rfl⟩
  all_goals exact .inr rfl

namespace Value

variable {v w : Value (.exact u)}

/-- An operator is component-wise where no matrix is involved. -/
lemma binary_eq_arithmetic {A : Arithmetic} {v w : Value A} (arithmetic : op.isCompoundAssignable)
    (typed : binary? op v.ty w.ty = some ty) (noMatrixV : v.ty.isMatrix = false)
    (noMatrixW : w.ty.isMatrix = false) : binary op v w = .arithmetic op ty v w := by
  cases op with
  | add | subtract | divide | modulo => simp only [binary, typed]
  | multiply =>
    simp only [binary, typed]
    exact product_eq_arithmetic noMatrixV noMatrixW
  | _ => cases arithmetic

/-- An operator of two numbers. A quotient of integers is cut. -/
lemma represent_binary_numbers (arithmetic : op.isCompoundAssignable)
    (shapeV : v.ty.shape? = some .number) (shapeW : w.ty.shape? = some .number)
    (typed : binary? op v.ty w.ty = some ty)
    (nonzero : op = .divide ∨ op = .modulo → w.part 0 ≠ 0) :
    ∃ q, combine? op (v.part 0) (w.part 0) = some (.number q) ∧ (binary op v w).represent
        = some (.number (if op = .divide ∧ ty = int then integerPart q else q)) := by
  rw [binary_eq_arithmetic arithmetic typed (Ty.isMatrix_of_number shapeV)
    (Ty.isMatrix_of_number shapeW)]
  rcases Ty.binary?_numbers arithmetic shapeV shapeW typed with ⟨int, int', rfl⟩ | rfl
  · obtain ⟨_, a⟩ := v
    obtain ⟨_, b⟩ := w
    obtain rfl := int
    obtain rfl := int'
    obtain ⟨q, combined, cut⟩ := combine?_whole (u := u) arithmetic nonzero
    refine ⟨q, combined, congrArg (some ∘ number) ?_⟩
    simp only [and_true]
    exact cut
  · have notInt : ¬(op = .divide ∧ Ty.float = int) := by simp [Ty.float, int]
    refine ⟨_, combine?_real (u := u) arithmetic nonzero, ?_⟩
    exact congrArg (some ∘ number) (if_neg notInt).symm

/-- A comparison of two numbers. -/
lemma represent_compare (comparison : op.IsComparison) (typed : binary? op v.ty w.ty = some ty)
    (shapeV : v.ty.shape? = some .number) (shapeW : w.ty.shape? = some .number) :
    (binary op v w).represent = combine? op (v.part 0) (w.part 0) := by
  obtain ⟨_, a⟩ := v
  obtain ⟨_, b⟩ := w
  rcases Ty.fits_of_shape? shapeV with rfl | rfl <;>
    rcases Ty.fits_of_shape? shapeW with rfl | rfl
  · -- Two integers are compared as such.
    have less (m n : Int) : decide (m < n) = decide ((m : Rat) < n) :=
      decide_eq_decide.mpr Int.cast_lt.symm
    have lessEqual (m n : Int) : decide (m ≤ n) = decide ((m : Rat) ≤ n) :=
      decide_eq_decide.mpr Int.cast_le.symm
    rcases comparison with rfl | rfl | rfl | rfl
    · exact congrArg (some ∘ boolean) (less a b)
    · exact congrArg (some ∘ boolean) (lessEqual a b)
    · exact congrArg (some ∘ boolean) (less b a)
    · exact congrArg (some ∘ boolean) (lessEqual b a)
  all_goals rcases comparison with rfl | rfl | rfl | rfl <;> rfl

/-- Two numbers are equal if they are worth the same. -/
lemma equalConverted_numbers (shapeV : v.ty.shape? = some .number)
    (shapeW : w.ty.shape? = some .number) : v.equalConverted w = decide (v.part 0 = w.part 0) := by
  obtain ⟨ty, a⟩ := v
  obtain ⟨ty', b⟩ := w
  rcases Ty.fits_of_shape? shapeV with rfl | rfl <;>
    rcases Ty.fits_of_shape? shapeW with rfl | rfl
  · exact decide_eq_decide.mpr (Int.cast_inj (α := Rat)).symm
  · rfl
  · rfl
  · rfl

end Value

end Numbers

/-! ## Operations on vectors and matrices -/

namespace Value

variable {u : Unspecified} {op : BinaryOp} {v w x : Value (.exact u)} {m n size : Dim} {ty : Ty}
  {place : Nat} {args : List (Value (.exact u))}

lemma represent_arithmetic_vector (op : BinaryOp) (size : Dim) (v w : Value (.exact u)) :
    (arithmetic op (.vec size) v w).represent = some (.vector size fun row =>
          (Arithmetic.exact u).real.combine op (v.part row) (w.part row)) :=
  represent_build_vector size _

lemma represent_arithmetic_matrix (op : BinaryOp) (size : Dim) (v w : Value (.exact u)) :
    (arithmetic op (.mat size) v w).represent = some (.matrix size fun col row =>
          (Arithmetic.exact u).real.combine op (v.cell col row) (w.cell col row)) :=
  represent_build_matrix size _

section

variable (arithmetical : op.isCompoundAssignable = true) (typed : Ty.binary? op v.ty w.ty = some ty)

include arithmetical typed

/-- Two vectors have one size. -/
lemma binary_vectors (typedV : v.ty = .vec m) (typedW : w.ty = .vec n) :
    m = n ∧ binary op v w = arithmetic op (.vec m) v w := by
  have noMatrixV : v.ty.isMatrix = false := by rw [typedV]; rfl
  have noMatrixW : w.ty.isMatrix = false := by rw [typedW]; rfl
  have wise := Ty.componentWise?_of_binary? arithmetical noMatrixV noMatrixW typed
  rw [binary_eq_arithmetic arithmetical typed noMatrixV noMatrixW]
  rw [typedV, typedW] at wise
  simp only [Ty.componentWise?, vec] at wise
  split at wise
  · next same =>
    cases wise
    exact ⟨same, rfl⟩
  · cases wise

/-- A vector and a number, in either order. -/
lemma binary_vectorWithNumber (shapes : v.ty = .vec size ∧ w.ty.shape? = some .number
      ∨ v.ty.shape? = some .number ∧ w.ty = .vec size) :
    binary op v w = arithmetic op (.vec size) v w := by
  have noMatrix : v.ty.isMatrix = false ∧ w.ty.isMatrix = false := by
    rcases shapes with ⟨vector, number⟩ | ⟨number, vector⟩ <;> rw [vector]
    · exact ⟨rfl, Ty.isMatrix_of_number number⟩
    · exact ⟨Ty.isMatrix_of_number number, rfl⟩
  have wise := Ty.componentWise?_of_binary? arithmetical noMatrix.1 noMatrix.2 typed
  rw [binary_eq_arithmetic arithmetical typed noMatrix.1 noMatrix.2]
  rcases shapes with ⟨vector, number⟩ | ⟨number, vector⟩ <;>
    rcases Ty.fits_of_shape? number with number | number <;> rw [vector, number] at wise <;>
    cases wise <;> rfl

end

lemma sum_eq (term : Nat → Rat) (count : Nat) :
    (Arithmetic.exact u).real.sum term count = ((List.range count).map term).sum := by
  induction count with
  | zero => rfl
  | succ count ih =>
    show (Arithmetic.exact u).real.add ((Arithmetic.exact u).real.sum term count) (term count) = _
    rw [ih, range_succ, map_append, sum_append, map_singleton, sum_singleton]
    rfl

lemma represent_matrixVector (typedV : v.ty = .mat size) (typedW : w.ty = .vec size) :
    (product (.vec size) v w).represent = some (.vector size fun row =>
          ((List.range size.count).map fun i => v.cell i row * w.part i).sum) := by
  simp only [product, typedV, typedW, mat, vec]
  rw [← vec, represent_build_vector]
  exact congrArg (some ∘ vector size) (funext fun row => sum_eq _ size.count)

lemma represent_vectorMatrix (typedV : v.ty = .vec size) (typedW : w.ty = .mat size) :
    (product (.vec size) v w).represent = some (.vector size fun row =>
          ((List.range size.count).map fun i => v.part i * w.cell row i).sum) := by
  simp only [product, typedV, typedW, mat, vec]
  rw [← vec, represent_build_vector]
  exact congrArg (some ∘ vector size) (funext fun row => sum_eq _ size.count)

lemma represent_matrixMatrix (typedV : v.ty = .mat size) (typedW : w.ty = .mat size) :
    (product (.mat size) v w).represent = some (.matrix size fun col row =>
          ((List.range size.count).map fun i => v.cell i row * w.cell col i).sum) := by
  simp only [product, typedV, typedW, mat]
  rw [← mat, represent_build_matrix]
  exact congrArg (some ∘ matrix size) (funext fun col => funext fun row => sum_eq _ size.count)

/-- A product with a number is component-wise. -/
lemma product_of_number (number : v.ty.shape? = some .number ∨ w.ty.shape? = some .number) :
    product ty v w = arithmetic .multiply ty v w := by
  have scalar : (v.ty = int ∨ v.ty = Ty.float) ∨ (w.ty = int ∨ w.ty = Ty.float) :=
    number.imp Ty.fits_of_shape? Ty.fits_of_shape?
  unfold product
  split
  · simp_all [int, Ty.float]
  · simp_all [int, Ty.float]
  · simp_all [int, Ty.float]
  · rfl

lemma binary_matrixNumber (scales : op = .multiply ∨ op = .divide) (typedV : v.ty = .mat size)
    (shapeW : w.ty.shape? = some .number) : binary op v w = arithmetic op (.mat size) v w := by
  have typed : binary? op v.ty w.ty = some (.mat size) := by
    rcases scales with rfl | rfl <;> rcases Ty.fits_of_shape? shapeW with typedW | typedW <;>
      rw [typedV, typedW] <;> rfl
  rcases scales with rfl | rfl <;> simp only [binary, typed]
  exact product_of_number (.inr shapeW)

lemma binary_numberMatrix (shapeV : v.ty.shape? = some .number) (typedW : w.ty = .mat size) :
    binary .multiply v w = arithmetic .multiply (.mat size) v w := by
  have typed : binary? .multiply v.ty w.ty = some (.mat size) := by
    rcases Ty.fits_of_shape? shapeV with typedV | typedV <;> rw [typedV, typedW] <;> rfl
  simp only [binary, typed]
  exact product_of_number (.inl shapeV)

/-- A matrix and a vector have one size, in either order. -/
lemma binary_matrixWithVector (typed : binary? .multiply v.ty w.ty = some ty)
    (types : v.ty = .mat m ∧ w.ty = .vec n ∨ v.ty = .vec m ∧ w.ty = .mat n) :
    m = n ∧ binary .multiply v w = product (.vec m) v w := by
  simp only [binary, typed]
  rcases types with ⟨typedV, typedW⟩ | ⟨typedV, typedW⟩ <;> rw [typedV, typedW] at typed <;>
    rcases eq_or_ne m n with same | other
  all_goals simp_all [binary?, mat, vec, Ty.isMatrix, Ty.linearProduct?, Ty.scaledMatrix?,
    Kind.isNumeric, eq_comm]

/-- Two matrices have one size. -/
lemma size_of_matrices (arithmetical : op.isCompoundAssignable)
    (typed : binary? op (.mat m) (.mat n) = some ty) : m = n := by
  have wise {result : Ty} (wise : Ty.componentWise? (.mat m) (.mat n) = some result) : m = n := by
    simp only [Ty.componentWise?, mat] at wise
    split at wise
    · next same => exact same.1
    · cases wise
  cases op with
  | add | subtract | divide => exact wise typed
  | modulo => exact wise (Option.filter_eq_some_iff.mp typed).1
  | multiply =>
    by_contra other
    simp [binary?, mat, Ty.isMatrix, Ty.linearProduct?, Ty.scaledMatrix?, other] at typed
  | _ => cases arithmetical

/-- Values of one type are compared as they are. -/
lemma equalConverted_same {A : Arithmetic} {v w : Value A} (same : v.ty = w.ty) :
    v.equalConverted w = v.equal w := by
  have converts : v.ty.convertsTo w.ty := by simp [Ty.convertsTo, same]
  rw [equalConverted, if_pos converts, convertTo, if_pos same]

lemma equalConverted_booleans (typedV : v.ty = Ty.bool) (typedW : w.ty = Ty.bool) :
    v.equalConverted w = (v.truth == w.truth) := by
  obtain ⟨_, x⟩ := v
  obtain ⟨_, y⟩ := w
  obtain rfl := typedV
  obtain rfl := typedW
  rfl

lemma real_equal_iff (a b : Rat) : (Arithmetic.exact u).real.equal a b ↔ a = b := decide_eq_true_iff

lemma all_finRange_iff {count : Nat} {test : Fin count → Bool} {P : Nat → Prop}
    (each : ∀ i (inside : i < count), test ⟨i, inside⟩ ↔ P i) :
    (finRange count).all test ↔ ∀ i < count, P i := by
  simp [Fin.forall_iff, each]

lemma equalConverted_vectors (typedV : v.ty = .vec size) (typedW : w.ty = .vec size) :
    v.equalConverted w = decide (∀ i < size.count, v.part i = w.part i) := by
  rw [equalConverted_same (typedV.trans typedW.symm)]
  obtain ⟨_, x⟩ := v
  obtain ⟨_, y⟩ := w
  obtain rfl := typedV
  obtain rfl := typedW
  rw [Bool.eq_iff_iff, decide_eq_true_eq, equal, dif_pos rfl]
  refine all_finRange_iff fun i inside => ?_
  rw [part_vec x inside, part_vec y inside]
  exact real_equal_iff _ _

lemma equalConverted_matrices (typedV : v.ty = .mat size) (typedW : w.ty = .mat size) :
    v.equalConverted w = decide (∀ col < size.count, ∀ row < size.count,
      v.cell col row = w.cell col row) := by
  rw [equalConverted_same (typedV.trans typedW.symm)]
  obtain ⟨_, x⟩ := v
  obtain ⟨_, y⟩ := w
  obtain rfl := typedV
  obtain rfl := typedW
  rw [Bool.eq_iff_iff, decide_eq_true_eq, equal, dif_pos rfl]
  refine all_finRange_iff fun col inCols => all_finRange_iff fun row inRows => ?_
  rw [cell_mat x inCols inRows, cell_mat y inCols inRows]
  exact real_equal_iff _ _

/-- A negation negates the components. -/
lemma represent_negate_number (shape : v.ty.shape? = some .number) :
    (unary .negate v).represent = some (.number (-v.part 0)) := by
  obtain ⟨_, x⟩ := v
  rcases Ty.fits_of_shape? shape with rfl | rfl
  · exact congrArg (some ∘ number) (Int.cast_neg (R := Rat) x)
  · rfl

lemma represent_negate_vector (typed : v.ty = .vec size) :
    (unary .negate v).represent = some (.vector size fun row => -v.part row) := by
  have result : Ty.unary? .negate v.ty = some (.vec size) := by
    rw [typed]
    rfl
  simp only [unary, result]
  exact represent_build_vector size _

lemma represent_negate_matrix (typed : v.ty = .mat size) :
    (unary .negate v).represent = some (.matrix size fun col row => -v.cell col row) := by
  have result : Ty.unary? .negate v.ty = some (.mat size) := by
    rw [typed]
    rfl
  simp only [unary, result]
  exact represent_build_matrix size _

/-! ## Parts -/

/-- The place that an index means. -/
lemma part_of_place (found : v.place? = some place) : v.represent = some (.number place) := by
  obtain ⟨ty, n⟩ := v
  cases ty with
  | scalar kind =>
    cases kind with
    | int =>
      have same : (show Int from n) = place := Int.mem_toNat?.mp found
      refine congrArg (some ∘ number) ?_
      exact (congrArg (Int.cast (R := Rat)) same).trans (Int.cast_natCast place)
    | _ => cases found
  | _ => cases found

lemma represent_element_vector (typed : v.ty = .vec size) (found : v.element? place = some x) :
    place < size.count ∧ x.represent = some (.number (v.part place)) := by
  obtain ⟨_, z⟩ := v
  obtain rfl := typed
  simp only [element?, vec] at found
  split at found
  · next inside =>
    cases found
    exact ⟨inside, congrArg (some ∘ number) (part_vec z inside).symm⟩
  · cases found

lemma represent_element_matrix (typed : v.ty = .mat size) (found : v.element? place = some x) :
    place < size.count ∧ x.represent = some (.vector size (v.cell place)) := by
  obtain ⟨_, z⟩ := v
  obtain rfl := typed
  simp only [element?, mat] at found
  split at found
  · next inside =>
    cases found
    refine ⟨inside, congrArg some (vector_congr fun row inRows => ?_)⟩
    exact (part_vec (z ⟨place, inside⟩) inRows).trans (cell_mat z inside inRows).symm
  · cases found

/-- One component is a number, several are a vector. -/
def picked (x : Nat → Rat) : List Nat → Script.Value
  | [place] => .number (x place)
  | places => .array (places.map x)

/-- The components that a selector picks. -/
lemma represent_field {name : String} {s : Swizzle} (typed : v.ty = .vec size)
    (parsed : Swizzle.parse? name = some s) (selected : s.resultType v.ty = .ok ty) :
    (∀ place ∈ s.pattern.map Component.index, place < size.count)
      ∧ (v.field name).represent = some (picked v.part (s.pattern.map Component.index)) := by
  have isVector : v.ty.isVector := by rw [typed]; rfl
  obtain ⟨pattern, alphabet⟩ := s
  obtain ⟨-, positive, few⟩ := Swizzle.parse?_eq_some.mp parsed
  simp only [field, isVector, if_true, parsed, select, selected]
  rw [typed] at selected
  obtain ⟨_, _, ⟨⟩, inside, rfl⟩ := Swizzle.resultType_eq_ok.mp selected
  refine ⟨by simpa using inside, ?_⟩
  rcases pattern with _ | ⟨a, _ | ⟨b, _ | ⟨c, _ | ⟨d, _ | ⟨e, rest⟩⟩⟩⟩⟩
  · cases positive
  · rfl
  · exact represent_build_vector _ _
  · exact represent_build_vector _ _
  · exact represent_build_vector _ _
  · simp only [length_cons] at few
    omega

/-! ## Constructors -/

/-- The components in order, as rationals. -/
def cells (v : Value (.exact u)) : List Rat := v.components .float

lemma cells_of_number (shape : v.ty.shape? = some .number) : v.cells = [v.part 0] := by
  obtain ⟨_, y⟩ := v
  rcases Ty.fits_of_shape? shape with rfl | rfl <;> rfl

lemma cells_of_vector (typed : v.ty = .vec size) :
    v.cells = (List.range size.count).map v.part := by
  obtain ⟨_, y⟩ := v
  obtain rfl := typed
  rfl

/-- An argument of a constructor brings its components. -/
lemma items?_of_represent {x : Script.Value} (shown : v.represent = some x)
    (notBool : v.ty ≠ Ty.bool) : x.items? = some v.cells := by
  cases shape : v.ty.shape? with
  | none => simp [represent, shape] at shown
  | some shape' =>
    cases shape' with
    | number =>
      cases (represent_number shape).symm.trans shown
      rw [cells_of_number shape]
      rfl
    | boolean => exact absurd (Ty.fits_of_shape? shape) notBool
    | vector size =>
      cases (represent_vector shape).symm.trans shown
      rw [cells_of_vector (Ty.fits_of_shape? shape)]
      rfl
    | matrix size =>
      cases (represent_matrix shape).symm.trans shown
      obtain ⟨_, y⟩ := v
      obtain rfl : _ = mat size := Ty.fits_of_shape? shape
      rfl
    | aggregate => simp [represent, shape] at shown

/-- One number fills a vector. -/
lemma represent_construct_filled (shape : v.ty.shape? = some .number) :
    (construct (.vec size) [v]).represent = some (.vector size fun _ => v.part 0) := by
  have isScalar : v.ty.isScalar := by
    rcases Ty.fits_of_shape? shape with same | same <;> rw [same] <;> rfl
  have filled : construct (.vec size) [v] = build (.vec size) fun kind => v.component kind := by
    simp [construct, vec, isScalar]
  rw [filled, represent_build_vector]
  exact congrArg some (vector_congr fun row _ => cell_of_number shape 0 row)

/-- Otherwise a vector takes the components of its arguments in order. -/
lemma represent_construct_vector (several : ∀ v, args = [v] → v.ty.isScalar = false) :
    (construct (.vec size) args).represent
      = some (.vector size fun i => (args.flatMap cells)[i]?.getD 0) := by
  have inOrder : construct (.vec size) args = build (.vec size) fun kind col row =>
      (args.flatMap (components kind))[col * 0 + row]?.getD ((Arithmetic.exact u).zero kind) := by
    match args, several with
    | [], _ | _ :: _ :: _, _ => rfl
    | [v], several => simp only [construct, vec, several v rfl, Bool.false_eq_true, if_false]
  rw [inOrder, represent_build_vector]
  refine congrArg some (vector_congr fun row _ => ?_)
  simp only [Nat.zero_mul, Nat.zero_add]
  rfl

/-- A vector of the same size is taken as it is. -/
lemma represent_construct_vector_self (typed : v.ty = .vec size) :
    (construct (.vec size) [v]).represent = v.represent := by
  have shape : v.ty.shape? = some (.vector size) := by rw [typed]; rfl
  have length : v.cells.length = size.count := by
    rw [cells_of_vector typed, length_map, length_range]
  rw [represent_construct_vector, flatMap_singleton, vector,
    Script.Value.range_map_getD length, represent_vector shape, cells_of_vector typed]
  · rfl
  · rintro w ⟨⟩
    rw [typed]
    rfl

/-- One number fills the diagonal of a matrix. -/
lemma represent_construct_diagonal (shape : v.ty.shape? = some .number) :
    (construct (.mat size) [v]).represent
      = some (.matrix size fun col row => if col = row then v.part 0 else 0) := by
  have scalar : ∃ kind, v.ty = .scalar kind := by
    rcases Ty.fits_of_shape? shape with same | same <;> exact ⟨_, same⟩
  obtain ⟨kind, typed⟩ := scalar
  simp only [construct, mat, typed]
  rw [← mat, represent_build_matrix]
  rfl

/-- One matrix is cut, or filled up with the identity. -/
lemma represent_construct_resized {given : Dim} (typed : v.ty = .mat given) :
    (construct (.mat size) [v]).represent = some (.matrix size fun col row =>
          if col < given.count ∧ row < given.count then v.cell col row
          else if col = row then 1 else 0) := by
  simp only [construct, mat, typed]
  rw [← mat, represent_build_matrix]
  rfl

/-- A matrix of the same size is taken as it is. -/
lemma represent_construct_matrix_self (typed : v.ty = .mat size) :
    (construct (.mat size) [v]).represent = v.represent := by
  have shape : v.ty.shape? = some (.matrix size) := by rw [typed]; exact Ty.shape?_mat size
  rw [represent_construct_resized typed, represent_matrix shape]
  exact congrArg some (matrix_congr fun col inCols row inRows => if_pos ⟨inCols, inRows⟩)

/-- Otherwise a matrix takes the components of its arguments in order. -/
lemma represent_construct_matrix
    (several : ∀ v, args = [v] → v.ty.isScalar = false ∧ v.ty.isMatrix = false) :
    (construct (.mat size) args).represent = some (.matrix size fun col row =>
          (args.flatMap cells)[col * size.count + row]?.getD 0) := by
  have inOrder : construct (.mat size) args = build (.mat size) fun kind col row =>
      (args.flatMap (components kind))[col * size.count + row]?.getD
        ((Arithmetic.exact u).zero kind) := by
    match args, several with
    | [], _ | _ :: _ :: _, _ => rfl
    | [v], several =>
      obtain ⟨notScalar, notMatrix⟩ := several v rfl
      simp only [construct, mat]
      split
      · next typed => simp [typed, Ty.isScalar] at notScalar
      · next typed => simp [typed, Ty.isMatrix] at notMatrix
      · rfl
  rw [inOrder, represent_build_matrix]
  rfl

/-- A scalar takes the first component. -/
lemma construct_scalar {kind : Kind} (typed : v.ty = .vec size ∨ v.ty = .mat size) :
    construct (.scalar kind) [v]
      = ⟨.scalar kind, (Arithmetic.exact u).convert .float kind (v.part 0)⟩ := by
  obtain ⟨ty, x⟩ := v
  rcases typed with rfl | rfl <;> cases size <;> rfl

end Value

end ShaderAlgebra
