import ShaderAlgebra.Proofs.Script.Representation
import ShaderAlgebra.Script.Operation

/-!
# Lowered operations

`StandsFor S j v` says that a script yields what represents a value of a shader. For every operation
there is one lemma: where the scripts of the operands stand for their values, the script of the
operation stands for the value of the operation. The cases are the shapes of the operands, since
lowering decides by them.
-/

namespace ShaderAlgebra.Script

open ShaderAlgebra.Value

variable {u : Unspecified} {S : Setting}

/-- Whether a script yields what represents a value. -/
def StandsFor (S : Setting) (j : Expr) (v : ShaderAlgebra.Value (.exact u)) : Prop :=
  ∃ x, v.represent = some x ∧ Yields S j x

namespace StandsFor

variable {j : Expr} {v : ShaderAlgebra.Value (.exact u)}

section

variable (stands : StandsFor S j v)

include stands

lemma yields {x : Value} (shown : v.represent = some x) : Yields S j x := by
  obtain ⟨y, representedY, yields⟩ := stands
  obtain rfl := Option.some.inj (shown.symm.trans representedY)
  exact yields

lemma number (shape : v.ty.shape? = some .number) : Yields S j (.number (v.part 0)) :=
  stands.yields (represent_number shape)

lemma boolean (shape : v.ty.shape? = some .boolean) : Yields S j (.boolean v.truth) :=
  stands.yields (represent_boolean shape)

lemma vector {size : Dim}
    (shape : v.ty.shape? = some (.vector size)) : Yields S j (.vector size v.part) :=
  stands.yields (represent_vector shape)

lemma matrix {size : Dim}
    (shape : v.ty.shape? = some (.matrix size)) : Yields S j (.matrix size v.cell) :=
  stands.yields (represent_matrix shape)

/-- Nothing stands for an array or a struct. -/
lemma notAggregate : v.ty.shape? ≠ some .aggregate := by
  obtain ⟨x, shown, -⟩ := stands
  intro shape
  simp [represent, shape] at shown

end

end StandsFor

/-! ## Operators -/

section Operators

variable (standard : S.IsStandard)

include standard

lemma standsFor_unaryOf {op : UnaryOp} {shape : Shape} {e : Expr}
    {v : ShaderAlgebra.Value (.exact u)} {ty : Ty} (shaped : v.ty.shape? = some shape)
    (stands : StandsFor S e v) (typed : Ty.unary? op v.ty = some ty) :
    StandsFor S (unaryOf op ⟨shape, e⟩) (.unary op v) := by
  cases op with
  | not =>
    have isBool : v.ty = Ty.bool := (Ty.unary?_eq_some.mp typed).2
    have value := stands.boolean (by rw [isBool]; rfl)
    refine ⟨.boolean !v.truth, ?_, .unary value rfl⟩
    simp only [unary, typed]
    rfl
  | negate =>
    cases shape with
    | number => exact ⟨_, represent_negate_number shaped, .unary (stands.number shaped) rfl⟩
    | boolean =>
      rw [show v.ty = Ty.bool from Ty.fits_of_shape? shaped] at typed
      cases typed
    | vector size =>
      refine ⟨_, represent_negate_vector (Ty.fits_of_shape? shaped), ?_⟩
      exact yields_vectorOut standard .negate (.cons (stands.vector shaped) .nil)
        fun _ => Value.mapVector_vector size _ _
    | matrix size =>
      refine ⟨_, represent_negate_matrix (Ty.fits_of_shape? shaped), ?_⟩
      have minusOne := yields_int standard (n := -1) (by decide) (by decide)
      simpa [unaryOf] using yields_multiplyScalar standard (stands.matrix shaped) minusOne
    | aggregate => exact absurd shaped stands.notAggregate

section Arithmetic

variable {op : BinaryOp} {l r j : Expr} {v w : ShaderAlgebra.Value (.exact u)} {size : Dim}
  {node : ShaderAlgebra.Expr}

/-- The operators that have a name for vectors and matrices. -/
lemma standsFor_vectors {name : String} (named : componentName? op = some name)
    (yieldsL : Yields S l (.vector size v.part)) (yieldsR : Yields S r (.vector size w.part))
    (nonzero : op = .divide → ∀ i < size.count, w.part i ≠ 0) :
    StandsFor S (.vectorOut size name [l, r]) (.arithmetic op (.vec size) v w) := by
  refine ⟨_, represent_arithmetic_vector op size v w, ?_⟩
  have values := List.Forall₂.cons yieldsL (.cons yieldsR .nil)
  cases op with
  | add =>
    cases named
    exact yields_vectorOut standard .add values fun _ => Value.zipVectors_vector size _ _ _
  | subtract =>
    cases named
    exact yields_vectorOut standard .subtract values fun _ => Value.zipVectors_vector size _ _ _
  | multiply =>
    cases named
    exact yields_vectorOut standard .multiply values fun _ => Value.zipVectors_vector size _ _ _
  | divide =>
    cases named
    have allowed := nonzero rfl
    refine yields_vectorOut standard .divide values fun _ =>
      (Value.divideVectors_vector size v.part allowed).trans ?_
    exact congrArg some (Value.vector_congr fun i inside => (if_neg (allowed i inside)).symm)
  | _ => cases named

/-- A number is spread over a vector. -/
lemma yields_spread (yields : Yields S l (.number (v.part 0)))
    (shape : v.ty.shape? = some .number) : Yields S (.splat size l) (.vector size v.part) := by
  have spread : Value.vector size (fun _ => v.part 0) = .vector size v.part :=
    Value.vector_congr fun row _ => (cell_of_number shape 0 row).symm
  exact spread ▸ yields_splat standard yields

lemma standsFor_vectorWithNumber (lowered : vectorWithNumber node op size l r = .ok j)
    (yieldsL : Yields S l (.vector size v.part)) (yieldsR : Yields S r (.number (w.part 0)))
    (shape : w.ty.shape? = some .number) (nonzero : op = .divide → w.part 0 ≠ 0) :
    StandsFor S j (.arithmetic op (.vec size) v w) := by
  have constant (row : Nat) : w.part row = w.part 0 := cell_of_number shape 0 row
  have spread : Yields S (.splat size r) (.vector size w.part) :=
    yields_spread standard yieldsR shape
  cases op with
  | add | subtract =>
    cases lowered
    exact standsFor_vectors standard rfl yieldsL spread (by simp)
  | multiply =>
    cases lowered
    refine ⟨_, represent_arithmetic_vector .multiply size v w, ?_⟩
    simp only [constant]
    exact yields_scale standard yieldsL yieldsR
  | divide =>
    cases lowered
    have allowed := nonzero rfl
    have inverse := yields_reciprocal standard yieldsR allowed
    refine ⟨_, represent_arithmetic_vector .divide size v w, ?_⟩
    convert yields_scale standard yieldsL inverse using 2
    refine Value.vector_congr fun i _ => ?_
    rw [constant i, mul_one_div]
    exact if_neg allowed
  | _ => cases lowered

lemma standsFor_numberWithVector (lowered : numberWithVector node op size l r = .ok j)
    (yieldsL : Yields S l (.number (v.part 0))) (yieldsR : Yields S r (.vector size w.part))
    (shape : v.ty.shape? = some .number) (nonzero : op = .divide → ∀ i < size.count, w.part i ≠ 0) :
    StandsFor S j (.arithmetic op (.vec size) v w) := by
  have spread : Yields S (.splat size l) (.vector size v.part) :=
    yields_spread standard yieldsL shape
  cases op with
  | add | subtract =>
    cases lowered
    exact standsFor_vectors standard rfl spread yieldsR (by simp)
  | multiply =>
    cases lowered
    refine ⟨_, represent_arithmetic_vector .multiply size v w, ?_⟩
    convert yields_scale standard yieldsR yieldsL using 2
    refine Value.vector_congr fun i _ => ?_
    rw [show v.part i = v.part 0 from cell_of_number shape 0 i]
    exact mul_comm _ _
  | divide =>
    cases lowered
    exact standsFor_vectors standard rfl spread yieldsR nonzero
  | _ => cases lowered

lemma standsFor_matrixWithNumber (lowered : matrixWithNumber node op size l r = .ok j)
    (yieldsL : Yields S l (.matrix size v.cell)) (yieldsR : Yields S r (.number (w.part 0)))
    (shape : w.ty.shape? = some .number) (nonzero : op = .divide → w.part 0 ≠ 0) :
    StandsFor S j (.arithmetic op (.mat size) v w) := by
  have constant (col row : Nat) : w.cell col row = w.part 0 := cell_of_number shape col row
  refine ⟨_, represent_arithmetic_matrix op size v w, ?_⟩
  cases op with
  | multiply =>
    cases lowered
    simp only [constant]
    exact yields_multiplyScalar standard yieldsL yieldsR
  | divide =>
    cases lowered
    have allowed := nonzero rfl
    have inverse := yields_reciprocal standard yieldsR allowed
    convert yields_multiplyScalar standard yieldsL inverse using 2
    refine Value.matrix_congr fun col _ row _ => ?_
    rw [constant, mul_one_div]
    exact if_neg allowed
  | _ => cases lowered

lemma standsFor_scaledMatrix (yieldsL : Yields S l (.number (v.part 0)))
    (yieldsR : Yields S r (.matrix size w.cell)) (shape : v.ty.shape? = some .number) :
    StandsFor S (.matrixOut size "multiplyScalar" [r, l])
      (.arithmetic .multiply (.mat size) v w) := by
  refine ⟨_, represent_arithmetic_matrix .multiply size v w, ?_⟩
  convert yields_multiplyScalar standard yieldsR yieldsL using 2
  refine Value.matrix_congr fun col _ row _ => ?_
  rw [cell_of_number shape]
  exact mul_comm _ _

lemma standsFor_matrices (lowered : matrices node op size l r = .ok j) (typedV : v.ty = .mat size)
    (typedW : w.ty = .mat size) (yieldsL : Yields S l (.matrix size v.cell))
    (yieldsR : Yields S r (.matrix size w.cell)) : StandsFor S j (.binary op v w) := by
  have values := List.Forall₂.cons yieldsL (.cons yieldsR .nil)
  have byEntries {op : BinaryOp} (sum : op = .add ∨ op = .subtract) :
      binary op v w = .arithmetic op (.mat size) v w := by
    have typed : Ty.binary? op v.ty w.ty = some (.mat size) := by
      rw [typedV, typedW]
      rcases sum with rfl | rfl <;> exact if_pos ⟨rfl, rfl⟩
    rcases sum with rfl | rfl <;> simp only [binary, typed]
  cases op with
  | add =>
    cases lowered
    rw [byEntries (.inl rfl)]
    exact ⟨_, represent_arithmetic_matrix .add size v w,
      yields_matrixOut standard .add values fun _ => Value.zipMatrices_matrix size _ _ _⟩
  | subtract =>
    cases lowered
    rw [byEntries (.inr rfl)]
    exact ⟨_, represent_arithmetic_matrix .subtract size v w,
      yields_matrixOut standard .subtract values fun _ => Value.zipMatrices_matrix size _ _ _⟩
  | multiply =>
    cases lowered
    have typed : Ty.binary? .multiply v.ty w.ty = some (.mat size) := by
      rw [typedV, typedW]
      simp [Ty.binary?, Ty.isMatrix, Ty.mat, Ty.linearProduct?]
    simp only [binary, typed]
    exact ⟨_, represent_matrixMatrix typedV typedW,
      yields_matrixOut standard .multiply values fun _ => Value.multiplyMatrices_matrix size _ _⟩
  | _ => cases lowered

/-- A matrix times a vector. -/
lemma standsFor_matrixVector (typedV : v.ty = .mat size) (typedW : w.ty = .vec size)
    (yieldsL : Yields S l (.matrix size v.cell)) (yieldsR : Yields S r (.vector size w.part)) :
    StandsFor S (transform size r l) (.product (.vec size) v w) :=
  ⟨_, represent_matrixVector typedV typedW,
    yields_vectorOut standard .transform (.cons yieldsR (.cons yieldsL .nil)) fun _ =>
      Value.transformVector_vector size _ _⟩

/-- A vector times a matrix is the transposed matrix times the vector. -/
lemma standsFor_vectorMatrix (typedV : v.ty = .vec size) (typedW : w.ty = .mat size)
    (yieldsL : Yields S l (.vector size v.part)) (yieldsR : Yields S r (.matrix size w.cell)) :
    StandsFor S (transform size l (.matrixOut size "transpose" [r]))
      (.product (.vec size) v w) := by
  have transposed : Yields S (.matrixOut size "transpose" [r])
      (.matrix size fun col row => w.cell row col) :=
    yields_matrixOut standard .transpose (.cons yieldsR .nil) fun _ =>
      Value.transposeMatrix_matrix size _
  refine ⟨_, represent_vectorMatrix typedV typedW,
    yields_vectorOut standard .transform (.cons yieldsL (.cons transposed .nil)) fun _ =>
      (Value.transformVector_vector size _ _).trans ?_⟩
  simp only [mul_comm]

section

variable (arithmetical : op.isCompoundAssignable = true)
  (typed : Ty.binary? op v.ty w.ty = some node.ty)

include arithmetical typed

lemma standsFor_numbers (shapedV : v.ty.shape? = some .number)
    (shapedW : w.ty.shape? = some .number) (yieldsL : Yields S l (.number (v.part 0)))
    (yieldsR : Yields S r (.number (w.part 0)))
    (nonzero : op = .divide ∨ op = .modulo → w.part 0 ≠ 0) :
    StandsFor S (if op = .divide && node.ty = Ty.int then
        .callOf "Math.trunc" [.binary (arithmeticOp op) l r]
      else .binary (arithmeticOp op) l r) (.binary op v w) := by
  obtain ⟨q, combined, shown⟩ := represent_binary_numbers arithmetical shapedV shapedW typed nonzero
  have sameOp : arithmeticOp op = op := by
    cases op with
    | add | subtract | multiply | divide | modulo => rfl
    | _ => cases arithmetical
  have yields : Yields S (.binary (arithmeticOp op) l r) (.number q) := by
    rw [sameOp]
    exact .binary yieldsL yieldsR combined
  refine ⟨_, shown, ?_⟩
  by_cases cut : op = .divide ∧ node.ty = Ty.int
  · rw [if_pos cut, if_pos (by simpa using cut)]
    exact yields_trunc standard yields
  · rw [if_neg cut, if_neg (by simpa using cut)]
    exact yields

/-- The script of an arithmetic operator. -/
lemma standsFor_arithmetic {shapeL shapeR : Shape} (shapedV : v.ty.shape? = some shapeL)
    (shapedW : w.ty.shape? = some shapeR) (standsL : StandsFor S l v) (standsR : StandsFor S r w)
    (nonzero : op = .divide ∨ op = .modulo → ∀ q ∈ w.cells, q ≠ 0)
    (lowered : arithmetic node op ⟨shapeL, l⟩ ⟨shapeR, r⟩ = .ok j) :
    StandsFor S j (.binary op v w) := by
  have numberNonzero (shape : w.ty.shape? = some .number) :
      op = .divide ∨ op = .modulo → w.part 0 ≠ 0 := by
    intro divides
    refine nonzero divides _ ?_
    rw [cells_of_number shape]
    exact List.mem_singleton_self _
  have vectorNonzero {size : Dim} (typedW : w.ty = .vec size) :
      op = .divide → ∀ i < size.count, w.part i ≠ 0 := by
    intro divides i inside
    refine nonzero (.inl divides) _ ?_
    rw [cells_of_vector typedW]
    exact List.mem_map_of_mem (List.mem_range.mpr inside)
  have typedV := Ty.fits_of_shape? shapedV
  have typedW := Ty.fits_of_shape? shapedW
  simp only [arithmetic] at lowered
  split at lowered
  · -- Two numbers.
    have stands := standsFor_numbers standard arithmetical typed shapedV shapedW
      (standsL.number shapedV) (standsR.number shapedW) (numberNonzero shapedW)
    split at lowered
    · next cut =>
      cases lowered
      rwa [if_pos cut] at stands
    · next kept =>
      cases lowered
      rwa [if_neg kept] at stands
  · -- Two vectors.
    obtain ⟨rfl, wise⟩ := binary_vectors arithmetical typed typedV typedW
    split at lowered
    · next named =>
      cases lowered
      rw [wise]
      exact standsFor_vectors standard named (standsL.vector shapedV) (standsR.vector shapedW)
        (vectorNonzero typedW)
    · cases lowered
  · rw [binary_vectorWithNumber arithmetical typed (.inl ⟨typedV, shapedW⟩)]
    exact standsFor_vectorWithNumber standard lowered (standsL.vector shapedV)
      (standsR.number shapedW) shapedW fun divides => numberNonzero shapedW (.inl divides)
  · rw [binary_vectorWithNumber arithmetical typed (.inr ⟨shapedV, typedW⟩)]
    exact standsFor_numberWithVector standard lowered (standsL.number shapedV)
      (standsR.vector shapedW) shapedV (vectorNonzero typedW)
  · -- A matrix and a vector.
    split at lowered
    · next multiplies =>
      cases lowered
      subst multiplies
      obtain ⟨rfl, linear⟩ := binary_matrixWithVector typed (.inl ⟨typedV, typedW⟩)
      rw [linear]
      exact standsFor_matrixVector standard typedV typedW (standsL.matrix shapedV)
        (standsR.vector shapedW)
    · cases lowered
  · -- A vector and a matrix.
    split at lowered
    · next multiplies =>
      cases lowered
      subst multiplies
      obtain ⟨rfl, linear⟩ := binary_matrixWithVector typed (.inr ⟨typedV, typedW⟩)
      rw [linear]
      exact standsFor_vectorMatrix standard typedV typedW (standsL.vector shapedV)
        (standsR.matrix shapedW)
    · cases lowered
  · -- Two matrices.
    rw [typedV, typedW] at typed
    obtain rfl := size_of_matrices arithmetical typed
    exact standsFor_matrices standard lowered typedV typedW (standsL.matrix shapedV)
      (standsR.matrix shapedW)
  · have scales : op = .multiply ∨ op = .divide := by
      cases op with
      | multiply => exact .inl rfl
      | divide => exact .inr rfl
      | _ => cases lowered
    rw [binary_matrixNumber scales typedV shapedW]
    exact standsFor_matrixWithNumber standard lowered (standsL.matrix shapedV)
      (standsR.number shapedW) shapedW fun divides => numberNonzero shapedW (.inl divides)
  · split at lowered
    · next multiplies =>
      cases lowered
      subst multiplies
      rw [binary_numberMatrix shapedV typedW]
      exact standsFor_scaledMatrix standard (standsL.number shapedV) (standsR.matrix shapedW)
        shapedV
    · cases lowered
  · cases lowered

end

end Arithmetic

section Binary

variable {op : BinaryOp} {l r : Expr} {v w : ShaderAlgebra.Value (.exact u)}
  {shapeL shapeR : Shape} {node : ShaderAlgebra.Expr} {ty : Ty} {j : Expr}

omit standard in
/-- Values that may be compared have one shape. -/
lemma shape_of_comparable {left right : Ty} (comparable : left.areComparable right)
    (shapedLeft : left.shape? = some shapeL) (shapedRight : right.shape? = some shapeR) :
    shapeL = shapeR := by
  have ofConverts {a b : Ty} {shape shape' : Shape} (converts : a.convertsTo b)
      (shaped : a.shape? = some shape) (shaped' : b.shape? = some shape') : shape = shape' := by
    rcases Ty.convertsTo_iff.mp converts with rfl | ⟨size, rfl, rfl⟩
    · exact Option.some.inj (shaped.symm.trans shaped')
    · cases size with
      | none =>
        cases shaped
        cases shaped'
        rfl
      | some size => cases shaped
  simp only [Ty.areComparable, Bool.and_eq_true, Bool.or_eq_true] at comparable
  rcases comparable.2 with converts | converts
  · exact ofConverts converts shapedLeft shapedRight
  · exact (ofConverts converts shapedRight shapedLeft).symm

omit standard in
lemma represent_equality (equality : op = .equal ∨ op = .notEqual)
    (typed : Ty.binary? op v.ty w.ty = some ty) :
    (binary op v w).represent
      = some (.boolean (if op = .equal then v.equalConverted w else !v.equalConverted w)) := by
  rcases equality with rfl | rfl <;> simp only [binary, typed] <;> rfl

/-- The script of an equality, or of its negation. -/
lemma standsFor_equality (isEquality : op = .equal ∨ op = .notEqual)
    (typed : Ty.binary? op v.ty w.ty = some ty) (shapedV : v.ty.shape? = some shapeL)
    (shapedW : w.ty.shape? = some shapeR) (standsL : StandsFor S l v) (standsR : StandsFor S r w)
    (lowered : equality node op ⟨shapeL, l⟩ r = .ok j) : StandsFor S j (.binary op v w) := by
  refine ⟨_, represent_equality isEquality typed, ?_⟩
  have comparable : v.ty.areComparable w.ty := by
    rcases isEquality with rfl | rfl <;> (by_contra other; simp [Ty.binary?, other] at typed)
  obtain rfl := shape_of_comparable comparable shapedV shapedW
  have signed {e : Expr} {b : Bool} (yields : Yields S e (.boolean b)) :
      Yields S (if op = .equal then e else .unary .not e)
        (.boolean (if op = .equal then b else !b)) := by
    split
    · exact yields
    · exact .unary yields rfl
  have typedV := Ty.fits_of_shape? shapedV
  have typedW := Ty.fits_of_shape? shapedW
  cases shapeL with
  | number =>
    cases lowered
    refine .binary (standsL.number shapedV) (standsR.number shapedW) ?_
    rw [equalConverted_numbers shapedV shapedW]
    rcases isEquality with rfl | rfl
    · rfl
    · simp [Value.binary?, Value.combine?]
  | boolean =>
    cases lowered
    refine .binary (standsL.boolean shapedV) (standsR.boolean shapedW) ?_
    rw [equalConverted_booleans typedV typedW]
    rcases isEquality with rfl | rfl <;> rfl
  | vector size =>
    cases lowered
    rw [equalConverted_vectors typedV typedW]
    refine signed (yields_vectorCall standard .exactEquals
      (.cons (standsL.vector shapedV) (.cons (standsR.vector shapedW) .nil)) ?_)
    exact Value.equalVectors_vector size _ _
  | matrix size =>
    cases lowered
    rw [equalConverted_matrices typedV typedW]
    refine signed (yields_matrixCall standard .exactEquals
      (.cons (standsL.matrix shapedV) (.cons (standsR.matrix shapedW) .nil)) ?_)
    exact Value.equalMatrices_matrix size _ _
  | aggregate => cases lowered

omit standard in
/-- The script of a logical operator looks at the right operand only if the left one does not
decide. -/
lemma standsFor_logical {b : Bool} (logical : decisive? op = some b)
    (typed : Ty.binary? op v.ty w.ty = some ty) (standsL : StandsFor S l v)
    (standsR : v.truth ≠ b → StandsFor S r w) : StandsFor S (.binary op l r) (.binary op v w) := by
  have bools : v.ty = Ty.bool ∧ w.ty = Ty.bool := by
    by_contra other
    cases op <;> cases logical <;> simp [Ty.binary?, other] at typed
  have yieldsL := standsL.boolean (by rw [bools.1]; rfl)
  have shown : (binary op v w).represent
      = some (.boolean (if v.truth = b then b else w.truth)) := by
    cases op <;> cases logical <;> simp only [binary, typed] <;>
      cases v.truth <;> rfl
  refine ⟨_, shown, ?_⟩
  by_cases decided : v.truth = b
  · rw [if_pos decided]
    exact .decided logical (decided ▸ yieldsL)
  · rw [if_neg decided]
    have opposite : v.truth = !b := Bool.eq_not.mpr decided
    have yieldsR := (standsR decided).boolean (by rw [bools.2]; rfl)
    exact .undecided logical (opposite ▸ yieldsL) yieldsR

/-- The script of a binary operator. -/
lemma standsFor_binaryOf (typed : Ty.binary? op v.ty w.ty = some node.ty)
    (shapedV : v.ty.shape? = some shapeL) (shapedW : w.ty.shape? = some shapeR)
    (standsL : StandsFor S l v) (standsR : decisive? op ≠ some v.truth → StandsFor S r w)
    (nonzero : op = .divide ∨ op = .modulo → ∀ q ∈ w.cells, q ≠ 0)
    (lowered : binaryOf node op ⟨shapeL, l⟩ ⟨shapeR, r⟩ = .ok j) :
    StandsFor S j (.binary op v w) := by
  have standsOrdered (comparison : op.IsComparison) (indecisive : decisive? op ≠ some v.truth) :
      StandsFor S (.binary op l r) (.binary op v w) := by
    obtain ⟨numberV, numberW⟩ := Ty.numbers_of_comparison comparison typed
    have shown := represent_compare comparison typed numberV numberW
    have yieldsL := standsL.number numberV
    have yieldsR := (standsR indecisive).number numberW
    rcases comparison with rfl | rfl | rfl | rfl <;>
      exact ⟨_, shown, .binary yieldsL yieldsR rfl⟩
  cases op with
  | add | subtract | multiply | divide | modulo =>
    exact standsFor_arithmetic standard rfl typed shapedV shapedW standsL
      (standsR (by simp [decisive?])) nonzero lowered
  | equal =>
    exact standsFor_equality standard (.inl rfl) typed shapedV shapedW standsL
      (standsR (by simp [decisive?])) lowered
  | notEqual =>
    exact standsFor_equality standard (.inr rfl) typed shapedV shapedW standsL
      (standsR (by simp [decisive?])) lowered
  | less | lessEqual | greater | greaterEqual =>
    cases lowered
    exact standsOrdered (by simp [BinaryOp.IsComparison]) (by simp [decisive?])
  | logicalAnd | logicalOr =>
    cases lowered
    exact standsFor_logical rfl typed standsL fun other =>
      standsR fun same => other (Option.some.inj same).symm

end Binary

end Operators

end ShaderAlgebra.Script
