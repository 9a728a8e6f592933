import ShaderAlgebra.Proofs.Semantics.Dual

/-!
# Operations with matrices

A value of numbers is told by its cells, the components in the rows of its columns. Addition,
subtraction and division go cell by cell, with a number spread over a vector or a matrix. A cell of a
product is a sum of products of cells; which cells meet in it depends on the types of the factors
alone (`Ty.pairing`), so that a product is linear in each of its factors whatever their shapes are.

A constant has its number in each cell, or on the diagonal if it is a matrix (`Ty.splat`). A product
with it is a multiple of the other factor, if the product has its shape.
-/

namespace ShaderAlgebra

open Finset (range)

namespace Ty

variable {left right ty : Ty} {col row : Nat}

/-- Whether a value of the type has a component in a row of a column. A scalar has one everywhere,
and a vector is the same in every column. -/
def HasCell : Ty → (column row : Nat) → Prop
  | .scalar _, _, _ => True
  | .vector size _, _, row => row < size.count
  | .matrix columns rows, column, row => column < columns.count ∧ row < rows.count
  | _, _, _ => False

/-- Whether the type is a scalar, vector or matrix of numbers. -/
def IsNumeric (ty : Ty) : Prop := ty.kind?.any Kind.isNumeric = true

lemma IsPlain.hasCell_iff (plain : ty.IsPlain) : ty.HasCell col row ↔ ty.HasRow row := by
  obtain ⟨size, kind, rfl, -⟩ := plain
  cases size <;> simp [Ty.plain, HasCell, HasRow, size?]

lemma IsPlain.isMatrix (plain : ty.IsPlain) : ty.isMatrix = false := by
  obtain ⟨size, kind, rfl, -⟩ := plain
  exact isMatrix_plain size kind

lemma isNumeric_of_negate (typed : unary? .negate left = some ty) : ty.IsNumeric := by
  obtain ⟨rfl, num⟩ := unary?_eq_some.mp typed
  cases left <;> simp_all [IsNumeric, isMatrix, kind?, Kind.isNumeric]

/-- How a type takes part in a component-wise operation: as a number that is spread over the result,
or with its shape. -/
def FitsIn (x ty : Ty) : Prop := x.IsNumeric ∧ (x.isScalar = true ∨ x.convertsTo ty = true)

lemma componentWise?_fitsIn (typed : componentWise? left right = some ty) :
    left.FitsIn ty ∧ right.FitsIn ty ∧ ty.IsNumeric := by
  by_cases matrix : left.isMatrix ∨ right.isMatrix
  · cases left <;> cases right <;> simp_all [componentWise?, scaledMatrix?, isMatrix] <;>
      grind [FitsIn, IsNumeric, kind?, Kind.isNumeric, isScalar, convertsTo]
  · simp only [not_or, Bool.not_eq_true] at matrix
    obtain ⟨sizeL, sizeR, a, b, kind, rfl, rfl, rfl, unified, sizes⟩ :=
      componentWise?_plain typed matrix.1 matrix.2
    cases a <;> cases b <;> cases unified <;> cases sizeL <;> cases sizeR <;>
      simp_all [FitsIn, IsNumeric, plain, kind?, Kind.isNumeric, isScalar, convertsTo]

lemma componentWise?_self {x : Ty} (typed : componentWise? x x = some ty) : ty = x := by
  cases x with
  | scalar kind | vector _ kind => cases kind <;> simp_all [componentWise?, Kind.unify?]
  | _ => simp_all [componentWise?, scaledMatrix?]

lemma FitsIn.hasCell {x : Ty} (fits : x.FitsIn ty) (ins : ty.HasCell col row) :
    x.HasCell col row := by
  rcases fits.2 with scal | converts
  · cases x <;> simp_all [isScalar, HasCell]
  · rcases convertsTo_iff.mp converts with rfl | ⟨size, rfl, rfl⟩
    · exact ins
    · cases size <;> exact ins

lemma isMatrix_of_convertsTo {x : Ty} (conv : x.convertsTo ty) (nm : ty.isMatrix = false) :
    x.isMatrix = false := by
  rcases convertsTo_iff.mp conv with rfl | ⟨size, rfl, -⟩
  · exact nm
  · exact isMatrix_plain size .int

lemma FitsIn.isMatrix {x : Ty} (fits : x.FitsIn ty) (nm : ty.isMatrix = false) :
    x.isMatrix = false := by
  rcases fits.2 with scal | conv
  · cases x <;> first | rfl | cases scal
  · exact isMatrix_of_convertsTo conv nm

/-! ## Products -/

/-- Which cells of two factors meet in a cell of their product: it is the sum of `count` products.
-/
structure Pairing where
  count : Nat
  left : (column row i : Nat) → Nat × Nat
  right : (column row i : Nat) → Nat × Nat

/-- The cell of a product, from the cells of the factors. -/
def Pairing.sum (p : Pairing) (f g : Nat → Nat → Rat) (column row : Nat) : Rat :=
  ∑ i ∈ range p.count, f (p.left column row i).1 (p.left column row i).2
    * g (p.right column row i).1 (p.right column row i).2

/-- The cells at the same place meet. -/
def Pairing.wise : Pairing :=
  ⟨1, fun column row _ => (column, row), fun column row _ => (column, row)⟩

lemma Pairing.sum_add (p : Pairing) (f g h : Nat → Nat → Rat) (col row : Nat) :
    p.sum (fun col row => f col row + g col row) h col row
      = p.sum f h col row + p.sum g h col row := by
  simp only [Pairing.sum, add_mul, Finset.sum_add_distrib]

lemma Pairing.sum_sub (p : Pairing) (f g h : Nat → Nat → Rat) (col row : Nat) :
    p.sum (fun col row => f col row - g col row) h col row
      = p.sum f h col row - p.sum g h col row := by
  simp only [Pairing.sum, sub_mul, Finset.sum_sub_distrib]

/-- Which cells meet in a product of factors of the given types. -/
def pairing : Ty → Ty → Pairing
  | .matrix columns _, .vector .. => ⟨columns.count, fun _ row i => (i, row), fun _ _ i => (0, i)⟩
  | .vector size _, .matrix .. => ⟨size.count, fun _ _ i => (0, i), fun _ row i => (row, i)⟩
  | .matrix columns _, .matrix .. =>
    ⟨columns.count, fun _ row i => (i, row), fun column _ i => (column, i)⟩
  | _, _ => .wise

lemma Pairing.sum_wise (f g : Nat → Nat → Rat) (col row : Nat) :
    wise.sum f g col row = f col row * g col row :=
  Finset.sum_range_one _

/-- The types of a product. -/
inductive Multiplies : (left right ty : Ty) → Prop
  | matrixVector {columns rows : Dim} {kind : Kind} : kind.isNumeric = true →
    Multiplies (.matrix columns rows) (.vector columns kind) (.vector rows .float)
  | vectorMatrix {columns rows : Dim} {kind : Kind} : kind.isNumeric = true →
    Multiplies (.vector rows kind) (.matrix columns rows) (.vector columns .float)
  | matrices {columns rows inner : Dim} :
    Multiplies (.matrix inner rows) (.matrix columns inner) (.matrix columns rows)
  | wise {left right ty : Ty} : componentWise? left right = some ty →
    (left.isMatrix = true → right.isScalar = true) →
    (right.isMatrix = true → left.isScalar = true) → Multiplies left right ty

lemma multiplies (typed : binary? .multiply left right = some ty) : Multiplies left right ty := by
  rw [binary?] at typed
  split at typed
  · rcases Option.or_eq_some_iff.mp typed with linear | ⟨-, scaled⟩
    · unfold linearProduct? at linear
      split at linear
      · obtain ⟨⟨rfl, num⟩, ⟨⟩⟩ := Option.ite_none_right_eq_some.mp linear
        exact .matrixVector num
      · obtain ⟨⟨rfl, num⟩, ⟨⟩⟩ := Option.ite_none_right_eq_some.mp linear
        exact .vectorMatrix num
      · obtain ⟨rfl, ⟨⟩⟩ := Option.ite_none_right_eq_some.mp linear
        exact .matrices
      · cases linear
    · unfold scaledMatrix? at scaled
      split at scaled
      · exact .wise scaled (fun _ => rfl) fun mat => by cases mat
      · exact .wise scaled (fun mat => by cases mat) fun _ => rfl
      · cases scaled
  · next plain =>
    simp only [Bool.or_eq_true, not_or] at plain
    exact .wise typed (fun mat => absurd mat plain.1) fun mat => absurd mat plain.2

lemma pairing_of_isScalar (scal : left.isScalar ∨ right.isScalar) : pairing left right = .wise := by
  cases left <;> cases right <;> simp_all [isScalar, pairing]

lemma pairing_of_isMatrix (fst : left.isMatrix → right.isScalar)
    (snd : right.isMatrix → left.isScalar) : pairing left right = .wise := by
  cases left <;> cases right <;> simp_all [isScalar, isMatrix, pairing]

/-- Only the shape of a factor counts. -/
lemma pairing_of_convertsTo {x : Ty} (converts : x.convertsTo left) :
    pairing x right = pairing left right := by
  rcases convertsTo_iff.mp converts with rfl | ⟨size, rfl, rfl⟩
  · rfl
  · cases size <;> cases right <;> rfl

namespace Multiplies

variable (m : Multiplies left right ty)

include m

lemma isNumeric : left.IsNumeric ∧ right.IsNumeric ∧ ty.IsNumeric := by
  cases m with
  | matrixVector num => exact ⟨rfl, num, rfl⟩
  | vectorMatrix num => exact ⟨num, rfl, rfl⟩
  | matrices => exact ⟨rfl, rfl, rfl⟩
  | wise typed =>
    obtain ⟨fst, snd, num⟩ := componentWise?_fitsIn typed
    exact ⟨fst.1, snd.1, num⟩

/-- The cells that meet are there, so that a product is made of nothing else. -/
lemma sum_congr {f f' g g' : Nat → Nat → Rat} (ins : ty.HasCell col row)
    (onL : ∀ col row, left.HasCell col row → f col row = f' col row)
    (onR : ∀ col row, right.HasCell col row → g col row = g' col row) :
    (pairing left right).sum f g col row = (pairing left right).sum f' g' col row := by
  refine Finset.sum_congr rfl fun i mem => ?_
  have lt := Finset.mem_range.mp mem
  cases m with
  | matrixVector => exact congrArg₂ _ (onL _ _ ⟨lt, ins⟩) (onR 0 _ lt)
  | vectorMatrix => exact congrArg₂ _ (onL 0 _ lt) (onR _ _ ⟨ins, lt⟩)
  | matrices => exact congrArg₂ _ (onL _ _ ⟨lt, ins.2⟩) (onR _ _ ⟨ins.1, lt⟩)
  | wise typed fst snd =>
    obtain ⟨fitsL, fitsR, -⟩ := componentWise?_fitsIn typed
    rw [pairing_of_isMatrix fst snd]
    exact congrArg₂ _ (onL _ _ (fitsL.hasCell ins)) (onR _ _ (fitsR.hasCell ins))

end Multiplies

/-- A factor in place of a number, whose product fits in the same result: the cells still meet at
their places, unless the factor is a matrix and the other is no number. -/
lemma Multiplies.pairing_eq_wise {x l : Ty} (m : Multiplies left right ty)
    (own : Multiplies x right l) (scal : x.isScalar) (fits : l.FitsIn ty)
    (even : left.isMatrix → right.isScalar) : pairing left right = .wise := by
  cases m with
  | matrixVector | matrices => cases even rfl
  | vectorMatrix =>
    have nm := fits.isMatrix rfl
    cases own with
    | vectorMatrix | matrices => cases scal
    | wise typed => cases (componentWise?_fitsIn typed).2.1.isMatrix nm
  | wise _ fst snd => exact pairing_of_isMatrix fst snd

/-! ## Constants -/

/-- The cells of a number times a unit. -/
def splat (ty : Ty) (q : Rat) (column row : Nat) : Rat :=
  if ty.isMatrix = true ∧ column ≠ row then 0 else q

lemma splat_zero (ty : Ty) (col row : Nat) : ty.splat 0 col row = 0 := ite_self 0

lemma splat_of_isMatrix (nm : ty.isMatrix = false) (q : Rat) : ty.splat q col row = q := by
  simp [splat, nm]

lemma size?_of_convertsTo {x : Ty} (conv : x.convertsTo ty) : x.size? = ty.size? := by
  rcases convertsTo_iff.mp conv with rfl | ⟨size, rfl, rfl⟩
  · rfl
  · rw [size?_plain, size?_plain]

/-- A factor on the left that is a number times a unit multiplies by the number, if the product has
the shape of the other factor. -/
lemma Multiplies.splat_sum (m : Multiplies left right ty) (conv : right.convertsTo ty)
    (ins : ty.HasCell col row) (q : Rat) {g : Nat → Nat → Rat}
    (only : right.isMatrix = false → g 0 row = g col row) :
    (pairing left right).sum (left.splat q) g col row = q * g col row := by
  cases m with
  | @matrixVector cols rows =>
    obtain rfl : cols = rows := Option.some.inj (size?_of_convertsTo conv)
    simp [Pairing.sum, pairing, splat, isMatrix, ← only rfl, ite_not, show row < _ from ins]
  | vectorMatrix => simp [convertsTo] at conv
  | @matrices cols rows inner =>
    obtain rfl : inner = rows := by grind [convertsTo]
    simp [Pairing.sum, pairing, splat, isMatrix, ite_not, show row < _ from ins.2]
  | wise typed fst snd =>
    have nm : left.isMatrix = false := by
      cases left <;> cases right <;> simp_all [isMatrix, isScalar, componentWise?, scaledMatrix?]
      grind [convertsTo]
    rw [pairing_of_isMatrix fst snd, Pairing.sum_wise, splat_of_isMatrix nm]

/-- The same for a factor on the right. -/
lemma Multiplies.sum_splat (m : Multiplies left right ty) (conv : left.convertsTo ty)
    (ins : ty.HasCell col row) (q : Rat) {f : Nat → Nat → Rat}
    (only : left.isMatrix = false → f 0 row = f col row) :
    (pairing left right).sum f (right.splat q) col row = f col row * q := by
  cases m with
  | matrixVector => simp [convertsTo] at conv
  | @vectorMatrix cols rows =>
    obtain rfl : rows = cols := Option.some.inj (size?_of_convertsTo conv)
    simp [Pairing.sum, pairing, splat, isMatrix, ← only rfl, ite_not, show row < _ from ins]
  | @matrices cols rows inner =>
    obtain rfl : inner = cols := by grind [convertsTo]
    simp [Pairing.sum, pairing, splat, isMatrix, ite_not, show col < _ from ins.1]
  | wise typed fst snd =>
    have nm : right.isMatrix = false := by
      cases left <;> cases right <;> simp_all [isMatrix, isScalar, componentWise?, scaledMatrix?]
      grind [convertsTo]
    rw [pairing_of_isMatrix fst snd, Pairing.sum_wise, splat_of_isMatrix nm]

end Ty

namespace Value

variable {u : Unspecified} {v w : Value (.exact u)} {ty : Ty} {col row : Nat}

/-- A scalar or vector is the same in every column. -/
lemma cell_eq_part (nm : v.ty.isMatrix = false) (col row : Nat) : v.cell col row = v.part row := by
  obtain ⟨ty, x⟩ := v
  cases ty <;> first | rfl | cases nm

/-- A value of numbers is determined by its cells. -/
lemma ext_cell (same : v.ty = w.ty) (num : v.ty.IsNumeric)
    (cells : ∀ col row, v.ty.HasCell col row → v.cell col row = w.cell col row) : v = w := by
  cases mat : v.ty.isMatrix with
  | false =>
    have plain := Ty.isPlain_of_numeric mat num
    refine ext_part same plain fun row ins => ?_
    rw [← cell_eq_part mat 0, ← cell_eq_part (same ▸ mat) 0]
    exact cells 0 row (plain.hasCell_iff.mpr ins)
  | true =>
    obtain ⟨ty, x⟩ := v
    obtain ⟨ty', y⟩ := w
    obtain rfl : ty = ty' := same
    cases ty with
    | matrix =>
      refine congrArg (Value.mk _) (funext fun col => funext fun row => ?_)
      have equal := cells col row ⟨col.isLt, row.isLt⟩
      simp only [cell, component, Fin.is_lt, and_self, dite_true, Fin.eta] at equal
      exact equal
    | _ => cases mat

/-- The cells of a component-wise operation with a matrix. -/
lemma cell_matrix {op : BinaryOp} (mat : ty.isMatrix) (ins : ty.HasCell col row) :
    (arithmetic op ty v w).cell col row
      = (Arithmetic.exact u).real.combine op (v.cell col row) (w.cell col row) := by
  cases ty with
  | matrix => exact dif_pos ins
  | _ => cases mat

/-- The cells of a component-wise operation. -/
lemma cell_arithmetic {op : BinaryOp} {f : Rat → Rat → Rat}
    (calcs : Calculates u op (fun _ => True) f) (typed : Ty.componentWise? v.ty w.ty = some ty)
    (ins : ty.HasCell col row) :
    (arithmetic op ty v w).cell col row = f (v.cell col row) (w.cell col row) := by
  cases mat : ty.isMatrix with
  | true => exact (cell_matrix mat ins).trans (calcs.real _ _ trivial)
  | false =>
    obtain ⟨fitsV, fitsW, -⟩ := Ty.componentWise?_fitsIn typed
    have nmV := fitsV.isMatrix mat
    have nmW := fitsW.isMatrix mat
    obtain ⟨-, -, plain, -⟩ := Ty.componentWise?_isPlain typed nmV nmW
    have own : (arithmetic op ty v w).ty.isMatrix = false := by
      cases ty <;> first | rfl | cases mat
    rw [cell_eq_part own, cell_eq_part nmV, cell_eq_part nmW,
      part_arithmetic calcs typed nmV nmW (plain.hasCell_iff.mp ins) trivial]

lemma cell_linear {op : BinaryOp} {f : Rat → Rat → Rat} (linear : op = .add ∨ op = .subtract)
    (calcs : Calculates u op (fun _ => True) f) (typed : Ty.binary? op v.ty w.ty = some ty)
    (ins : ty.HasCell col row) :
    (binary op v w).cell col row = f (v.cell col row) (w.cell col row) := by
  rcases linear with rfl | rfl <;> simp only [binary, typed] <;>
    exact cell_arithmetic calcs typed ins

/-- A cell of a product is made of the cells that meet in it. -/
lemma cell_multiply (typed : Ty.binary? .multiply v.ty w.ty = some ty) (ins : ty.HasCell col row) :
    (binary .multiply v w).cell col row = (Ty.pairing v.ty w.ty).sum v.cell w.cell col row := by
  have m := Ty.multiplies typed
  simp only [binary, typed]
  obtain ⟨tyV, x⟩ := v
  obtain ⟨tyW, y⟩ := w
  cases m with
  | matrixVector | vectorMatrix | matrices => exact (dif_pos ins).trans (Arithmetic.sum_exact _ _)
  | wise wise first snd =>
    rw [Ty.pairing_of_isMatrix first snd, Ty.Pairing.sum_wise,
      ← cell_arithmetic calculates_multiply wise ins]
    cases tyV <;> cases tyW <;> first | rfl | cases first rfl | cases snd rfl

lemma cell_negate (num : v.ty.IsNumeric) (ins : v.ty.HasCell col row) :
    (unary .negate v).cell col row = -v.cell col row := by
  cases mat : v.ty.isMatrix with
  | true =>
    obtain ⟨ty, x⟩ := v
    cases ty with
    | matrix => exact dif_pos ins
    | _ => cases mat
  | false =>
    have plain := Ty.isPlain_of_numeric mat num
    have typed : Ty.unary? .negate v.ty = some v.ty := by
      simp [Ty.unary?, show v.ty.kind?.any Kind.isNumeric from num]
    have own : (unary .negate v).ty.isMatrix = false := ty_unary typed ▸ mat
    rw [cell_eq_part own, cell_eq_part mat, part_negate plain (plain.hasCell_iff.mp ins)]

end Value

end ShaderAlgebra
