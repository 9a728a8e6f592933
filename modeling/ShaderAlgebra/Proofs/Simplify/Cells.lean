import ShaderAlgebra.Proofs.Semantics.Matrices
import ShaderAlgebra.Proofs.Simplify.Constants

/-!
# What the rules do to cells

Most changes that the rules make are identities between numbers. They are shown cell by cell: the
value of a node is opened into the cells of its operands, with scalars spread and integers promoted
on the way, and what is left is an identity of rationals. Sums and differences are opened in the same
way whether there is a matrix in them or not (`IsAnnotated.cell_linear`), and products by the cells
that meet in them (`IsAnnotated.cell_multiply`).

Where matrices are involved, two of the changes need a condition. A matrix that is divided by the
identity is divided by zero beside the diagonal (`KeepsDividend`), and terms are collected by adding
their coefficients, which for a number and a matrix is not what it is for their products
(`CollectsEvenly`).
-/

namespace ShaderAlgebra

open Value List Arithmetic

lemma Value.eq_ofBool {A : Arithmetic} {v : Value A} (typed : v.ty = Ty.bool) :
    v = ofBool v.truth := by
  obtain ⟨ty, data⟩ := v
  obtain rfl : ty = Ty.bool := typed
  rfl

namespace Expr

variable {u : Unspecified} {I : Interpretation (.exact u)} {site : Site} {op : BinaryOp} {i : Int}
  {e new left right y c d term : Expr} {ty s : Ty} {col row : Nat} {val : Literal}
  {num : Double} {f : Rat → Rat → Rat}

/-! ## Constants -/

/-- A matrix constructor with one literal puts it on the diagonal. -/
lemma cell_fill {fn : String} {cols rows : Dim} (named : Ty.ofName? fn = some (.matrix cols rows))
    (worth : worth? val = some (i : Rat)) (ins : (Ty.matrix cols rows).HasCell col row) :
    (I.call fn [.ofLiteral val] ty).cell col row = (Ty.matrix cols rows).splat i col row := by
  have built : I.call fn [.ofLiteral val] ty = .build (.matrix cols rows) fun kind col row =>
      if col = row then (Value.ofLiteral val).component kind 0 0 else zero _ kind := by
    simp only [Interpretation.call, named, Value.construct, Value.ty_ofLiteral]
  rw [built]
  refine (dif_pos ins).trans ?_
  by_cases diagonal : col = row
  · simp only [diagonal, if_true, Ty.splat, ne_eq, not_true, and_false, if_false]
    exact component_ofLiteral worth rfl 0 0
  · simp only [diagonal, if_false, Ty.splat, ne_eq, not_false_iff, and_true]
    rfl

lemma isMatrix_literal (ann : (Expr.literal val ty).IsAnnotated site) : ty.isMatrix = false := by
  rw [show ty = .scalar val.kind from ann.fits]
  rfl

/-! ## Cells of trees -/

/-- A scalar or vector is the same in every column. -/
lemma IsAnnotated.cell_eq_part (ann : e.IsAnnotated site) (nm : e.ty.isMatrix = false)
    (col row : Nat) : (e.eval I).cell col row = (e.eval I).part row :=
  Value.cell_eq_part (eval_ty I ann ▸ nm) col row

/-- An annotated tree of numbers that has a cell in the row of the column. -/
structure HasCell (site : Site) (column row : Nat) (e : Expr) : Prop where
  annotated : e.IsAnnotated site
  numeric : e.ty.IsNumeric
  inside : e.ty.HasCell column row

namespace HasCell

variable (cell : e.HasCell site col row)

include cell

/-- A constant has its number in each cell, or on the diagonal. -/
lemma cell_of_holds (holds : Holds i e) : (e.eval I).cell col row = e.ty.splat i col row := by
  cases mat : e.ty.isMatrix with
  | false =>
    have plain := Ty.isPlain_of_numeric mat cell.numeric
    rw [cell.annotated.cell_eq_part mat, Ty.splat_of_isMatrix mat]
    refine holds.isFilled I plain row ?_
    rw [eval_ty I cell.annotated]
    exact plain.hasCell_iff.mp cell.inside
  | true =>
    cases holds with
    | literal => simp [Expr.ty, isMatrix_literal cell.annotated] at mat
    | @call fn val ty s worth shp named =>
      cases ty with
      | matrix => exact cell_fill named worth cell.inside
      | _ => cases mat

lemma cell_of_isZero (zero : e.isZero) : (e.eval I).cell col row = 0 := by
  rw [cell.cell_of_holds (holds_of_isZero zero), Int.cast_zero, Ty.splat_zero]

/-- What is found as the negation of a tree has the negated cells. -/
lemma cell_of_negated? (annY : y.IsAnnotated site) (neg : e.negated? = some y) :
    (y.eval I).cell col row = -(e.eval I).cell col row := by
  cases mat : e.ty.isMatrix with
  | false =>
    have plain := Ty.isPlain_of_numeric mat cell.numeric
    obtain ⟨same, parts⟩ := part_negated? I cell.annotated plain neg
    rw [annY.cell_eq_part (same ▸ mat), cell.annotated.cell_eq_part mat]
    exact parts row (plain.hasCell_iff.mp cell.inside)
  | true =>
    unfold negated? at neg
    split at neg
    · next opd ty =>
      obtain rfl : opd = y := Option.some.inj neg
      have same : (opd.eval I).ty = ty := (eval_ty I annY).trans (Ty.unary?_eq cell.annotated.fits)
      rw [eval, Value.cell_negate (same ▸ cell.numeric) (same ▸ cell.inside), neg_neg]
    · simp [Expr.ty, isMatrix_literal cell.annotated] at mat
    · simp [Expr.ty, isMatrix_literal cell.annotated] at mat
    · cases neg

end HasCell

/-- Two annotated trees of one type of numbers have the same value if they have the same cells. -/
lemma eval_eq_of_cells (ann : e.IsAnnotated site) (annNew : new.IsAnnotated site)
    (same : new.ty = e.ty) (num : e.ty.IsNumeric)
    (cells : ∀ col row, e.ty.HasCell col row →
      (new.eval I).cell col row = (e.eval I).cell col row) : new.eval I = e.eval I := by
  have typed : (new.eval I).ty = e.ty := (eval_ty I annNew).trans same
  refine ext_cell (typed.trans (eval_ty I ann).symm) ?_ ?_
  · rw [typed]
    exact num
  · rw [typed]
    exact cells

lemma IsAnnotated.binary?_eval (ann : (Expr.binary op left right ty).IsAnnotated site)
    (I : Interpretation (.exact u)) :
    Ty.binary? op (left.eval I).ty (right.eval I).ty = some ty := by
  rw [eval_ty I (ann.part mem_left), eval_ty I (ann.part mem_right)]
  exact ann.fits

/-- The operands of a component-wise operation. -/
lemma IsAnnotated.operands (ann : (Expr.binary op left right ty).IsAnnotated site)
    (wise : Ty.componentWise? left.ty right.ty = some ty)
    (ins : ty.HasCell col row) : left.HasCell site col row ∧ right.HasCell site col row := by
  obtain ⟨fitsL, fitsR, -⟩ := Ty.componentWise?_fitsIn wise
  exact ⟨⟨ann.part mem_left, fitsL.1, fitsL.hasCell ins⟩,
    ⟨ann.part mem_right, fitsR.1, fitsR.hasCell ins⟩⟩

/-- The cells of a sum or difference. -/
lemma IsAnnotated.cell_linear (ann : (Expr.binary op left right ty).IsAnnotated site)
    (linear : op = .add ∨ op = .subtract) (calcs : Calculates u op (fun _ => True) f)
    (ins : ty.HasCell col row) :
    ((Expr.binary op left right ty).eval I).cell col row
      = f ((left.eval I).cell col row) ((right.eval I).cell col row) :=
  Value.cell_linear linear calcs (ann.binary?_eval I) ins

/-- The cells of a component-wise operation without matrices, and of its operands. -/
lemma IsAnnotated.cell_wise {allowed : Rat → Prop}
    (ann : (Expr.binary op left right ty).IsAnnotated site) (wise : IsComponentWise op)
    (calcs : Calculates u op allowed f) (nmL : left.ty.isMatrix = false)
    (nmR : right.ty.isMatrix = false) (ins : ty.HasCell col row)
    (fine : allowed ((right.eval I).cell col row)) :
    ((Expr.binary op left right ty).eval I).cell col row
      = f ((left.eval I).cell col row) ((right.eval I).cell col row) := by
  have annL := ann.part mem_left
  have annR := ann.part mem_right
  have typed := (binary?_eq_componentWise? wise nmL nmR).symm.trans ann.fits
  obtain ⟨-, -, plain, -⟩ := Ty.componentWise?_isPlain typed nmL nmR
  rw [annR.cell_eq_part nmR] at fine
  rw [ann.cell_eq_part plain.isMatrix, annL.cell_eq_part nmL, annR.cell_eq_part nmR]
  exact part_binary wise calcs (ann.binary?_eval I) (eval_ty I annL ▸ nmL) (eval_ty I annR ▸ nmR)
    (plain.hasCell_iff.mp ins) fine

section Products

variable (ann : (Expr.binary .multiply left right ty).IsAnnotated site) (ins : ty.HasCell col row)

include ann ins

/-- The cells of a product. -/
lemma IsAnnotated.cell_multiply : ((Expr.binary .multiply left right ty).eval I).cell col row
      = (Ty.pairing left.ty right.ty).sum (left.eval I).cell (right.eval I).cell col row := by
  rw [← eval_ty I (ann.part mem_left), ← eval_ty I (ann.part mem_right)]
  exact Value.cell_multiply (ann.binary?_eval I) ins

/-- The cells of a product with a constant on the left. -/
lemma IsAnnotated.cell_holds_multiply (holds : Holds i left) :
    ((Expr.binary .multiply left right ty).eval I).cell col row
      = (Ty.pairing left.ty right.ty).sum (left.ty.splat i) (right.eval I).cell col row := by
  have m := Ty.multiplies ann.fits
  rw [ann.cell_multiply ins, m.sum_congr ins ?_ fun _ _ _ => rfl]
  exact fun _ _ ins => HasCell.cell_of_holds ⟨ann.part mem_left, m.isNumeric.1, ins⟩ holds

lemma IsAnnotated.cell_multiply_holds (holds : Holds i right) :
    ((Expr.binary .multiply left right ty).eval I).cell col row
      = (Ty.pairing left.ty right.ty).sum (left.eval I).cell (right.ty.splat i) col row := by
  have m := Ty.multiplies ann.fits
  rw [ann.cell_multiply ins, m.sum_congr ins (fun _ _ _ => rfl) ?_]
  exact fun _ _ ins => HasCell.cell_of_holds ⟨ann.part mem_right, m.isNumeric.2.1, ins⟩ holds

/-- A product with a constant is a multiple of the other factor, if it has its shape. -/
lemma IsAnnotated.cell_multiple_left (holds : Holds i left) (conv : right.ty.convertsTo ty) :
    ((Expr.binary .multiply left right ty).eval I).cell col row
      = i * (right.eval I).cell col row := by
  rw [ann.cell_holds_multiply ins holds]
  exact (Ty.multiplies ann.fits).splat_sum conv ins i fun nm => by
    rw [(ann.part mem_right).cell_eq_part nm, (ann.part mem_right).cell_eq_part nm]

lemma IsAnnotated.cell_multiple_right (holds : Holds i right) (conv : left.ty.convertsTo ty) :
    ((Expr.binary .multiply left right ty).eval I).cell col row
      = (left.eval I).cell col row * i := by
  rw [ann.cell_multiply_holds ins holds]
  exact (Ty.multiplies ann.fits).sum_splat conv ins i fun nm => by
    rw [(ann.part mem_left).cell_eq_part nm, (ann.part mem_left).cell_eq_part nm]

lemma IsAnnotated.cell_multiply_zero (zero : left.isZero ∨ right.isZero) :
    ((Expr.binary .multiply left right ty).eval I).cell col row = 0 := by
  rcases zero with zero | zero
  · rw [ann.cell_holds_multiply ins (holds_of_isZero zero)]
    simp [Ty.Pairing.sum, Ty.splat_zero]
  · rw [ann.cell_multiply_holds ins (holds_of_isZero zero)]
    simp [Ty.Pairing.sum, Ty.splat_zero]

end Products

/-- The operand of a negation has its type, and the negated cells. -/
lemma IsAnnotated.cell_negate (ann : (Expr.unary .negate y ty).IsAnnotated site) :
    y.ty = ty ∧ ∀ col row, ty.HasCell col row →
      ((Expr.unary .negate y ty).eval I).cell col row = -(y.eval I).cell col row := by
  have same : y.ty = ty := Ty.unary?_eq ann.fits
  have num : ty.IsNumeric := Ty.isNumeric_of_negate ann.fits
  refine ⟨same, fun col row ins => ?_⟩
  have typed := (eval_ty I (ann.part mem_operand)).trans same
  exact Value.cell_negate (typed ▸ num) (typed ▸ ins)

/-! ## Identities -/

/-- The identities of sums and differences. -/
lemma eval_identity_linear (linear : op = .add ∨ op = .subtract)
    (ann : (Expr.binary op left right ty).IsAnnotated site) (annNew : new.IsAnnotated site)
    (same : new.ty = ty) (mem : some new ∈ binaryCandidates op left right ty) :
    new.eval I = (Expr.binary op left right ty).eval I := by
  have wise : Ty.componentWise? left.ty right.ty = some ty := by
    rcases linear with rfl | rfl <;> exact ann.fits
  have num := (Ty.componentWise?_fitsIn wise).2.2
  refine eval_eq_of_cells ann annNew same num fun col row ins => ?_
  obtain ⟨onL, onR⟩ := ann.operands wise ins
  rcases linear with rfl | rfl
  · rw [ann.cell_linear (.inl rfl) calculates_add ins]
    simp only [binaryCandidates, mem_cons, not_mem_nil, or_false, eq_comm (a := some new),
      provided_eq_some, Option.bind_eq_some_iff, combined?_eq_some, Option.some.injEq] at mem
    rcases mem with ⟨zero, rfl⟩ | ⟨zero, rfl⟩ | ⟨y, neg, built⟩ | ⟨x, neg, built⟩
    · rw [onR.cell_of_isZero zero, add_zero]
    · rw [onL.cell_of_isZero zero, zero_add]
    · obtain ⟨s, -, rfl⟩ := binaryOf_eq_ok.mp built
      obtain rfl : s = ty := same
      rw [annNew.cell_linear (.inr rfl) calculates_subtract ins,
        onR.cell_of_negated? (annNew.part mem_right) neg, sub_neg_eq_add]
    · obtain ⟨s, -, rfl⟩ := binaryOf_eq_ok.mp built
      obtain rfl : s = ty := same
      rw [annNew.cell_linear (.inr rfl) calculates_subtract ins,
        onL.cell_of_negated? (annNew.part mem_right) neg, sub_neg_eq_add, add_comm]
  · rw [ann.cell_linear (.inr rfl) calculates_subtract ins]
    simp only [binaryCandidates, mem_cons, not_mem_nil, or_false, eq_comm (a := some new),
      provided_eq_some, Option.bind_eq_some_iff, combined?_eq_some, negation?_eq_some,
      Option.some.injEq] at mem
    rcases mem with ⟨zero, rfl⟩ | ⟨zero, built⟩ | ⟨y, neg, built⟩
    · rw [onR.cell_of_isZero zero, sub_zero]
    · obtain ⟨s, -, rfl⟩ := unaryOf_eq_ok.mp built
      obtain rfl : s = ty := same
      rw [annNew.cell_negate.2 col row ins, onL.cell_of_isZero zero, zero_sub]
    · obtain ⟨s, -, rfl⟩ := binaryOf_eq_ok.mp built
      obtain rfl : s = ty := same
      rw [annNew.cell_linear (.inl rfl) calculates_add ins,
        onR.cell_of_negated? (annNew.part mem_right) neg, sub_eq_add_neg]

/-- The identities of products. -/
lemma eval_identity_multiply (ann : (Expr.binary .multiply left right ty).IsAnnotated site)
    (annNew : new.IsAnnotated site) (same : new.ty = ty)
    (mem : some new ∈ binaryCandidates .multiply left right ty) :
    new.eval I = (Expr.binary .multiply left right ty).eval I := by
  have m : Ty.Multiplies left.ty right.ty ty := Ty.multiplies ann.fits
  obtain ⟨numL, numR, num⟩ := m.isNumeric
  have annL := ann.part mem_left
  have annR := ann.part mem_right
  have conv {x : Expr} (same : x.ty = ty) : x.ty.convertsTo ty := Ty.convertsTo_iff.mpr (.inl same)
  refine eval_eq_of_cells ann annNew same num fun col row ins => ?_
  simp only [binaryCandidates, mem_cons, not_mem_nil, or_false, eq_comm (a := some new),
    provided_eq_some, negation?_eq_some, Option.some.injEq, Bool.or_eq_true] at mem
  rcases mem with ⟨one, rfl⟩ | ⟨one, rfl⟩ | ⟨zero, built⟩ | ⟨minus, built⟩ | ⟨minus, built⟩ | both
  · rw [ann.cell_multiple_right ins (holds_of_isOne one) (conv same), Int.cast_one, mul_one]
  · rw [ann.cell_multiple_left ins (holds_of_isOne one) (conv same), Int.cast_one, one_mul]
  · have whole : new.HasCell site col row := ⟨annNew, same ▸ num, same ▸ ins⟩
    rw [whole.cell_of_holds (holds_of_zero? num built), Int.cast_zero, Ty.splat_zero,
      ann.cell_multiply_zero ins zero]
  · obtain ⟨t, -, rfl⟩ := unaryOf_eq_ok.mp built
    obtain rfl : t = ty := same
    obtain ⟨same, cells⟩ := annNew.cell_negate
    rw [cells col row ins, ann.cell_multiple_left ins (holds_of_isMinusOne minus) (conv same)]
    simp
  · obtain ⟨t, -, rfl⟩ := unaryOf_eq_ok.mp built
    obtain rfl : t = ty := same
    obtain ⟨same, cells⟩ := annNew.cell_negate
    rw [cells col row ins, ann.cell_multiple_right ins (holds_of_isMinusOne minus) (conv same)]
    simp
  · split at both
    · next a s b t =>
      obtain ⟨ty', -, rfl⟩ := binaryOf_eq_ok.mp (combined?_eq_some.mp both)
      obtain rfl : ty' = ty := same
      obtain ⟨rfl, cellsA⟩ := annL.cell_negate
      obtain ⟨rfl, cellsB⟩ := annR.cell_negate
      rw [annNew.cell_multiply ins, ann.cell_multiply ins, m.sum_congr ins cellsA cellsB]
      simp [Ty.Pairing.sum, Expr.ty]
    · cases both

/-- Whether division by zero does nothing beside the diagonal of a matrix that is divided by a
matrix. -/
def KeepsDividend (I : Interpretation (.exact u)) : Expr → Prop
  | .binary .divide left right _ => right.ty.isMatrix = true → ∀ column row,
    left.ty.HasCell column row → column ≠ row →
      u.realByZero ((left.eval I).cell column row) = (left.eval I).cell column row
  | _ => True

/-- Division by a one. -/
lemma eval_divided_iff (ann : (Expr.binary .divide left right ty).IsAnnotated site)
    (same : left.ty = ty) (one : right.isOne) :
    left.eval I = (Expr.binary .divide left right ty).eval I
      ↔ (Expr.binary .divide left right ty).KeepsDividend I := by
  obtain ⟨-, fitsR, num⟩ := Ty.componentWise?_fitsIn ann.fits
  have cell {col row : Nat} (ins : ty.HasCell col row) :
      ((Expr.binary .divide left right ty).eval I).cell col row
        = if right.ty.isMatrix ∧ col ≠ row then u.realByZero ((left.eval I).cell col row)
          else (left.eval I).cell col row := by
    have unit := (ann.operands ann.fits ins).2.cell_of_holds (I := I) (holds_of_isOne one)
    cases mat : ty.isMatrix with
    | true =>
      have divided : (Expr.binary .divide left right ty).eval I
          = arithmetic .divide ty (left.eval I) (right.eval I) := by
        simp only [eval, Value.binary, ann.binary?_eval I]
      rw [divided, cell_matrix mat ins, unit, Ty.splat]
      split
      · rfl
      · exact calculates_divide_one.real _ _ Int.cast_one
    | false =>
      have nm := fitsR.isMatrix mat
      rw [Ty.splat_of_isMatrix nm, Int.cast_one] at unit
      rw [ann.cell_wise .divide calculates_divide_one (same ▸ mat) nm ins unit,
        if_neg (by simp [nm])]
  constructor
  · intro equal divides col row ins beside
    have this := cell (same ▸ ins)
    rw [if_pos ⟨divides, beside⟩, ← equal] at this
    exact this.symm
  · intro keeps
    refine eval_eq_of_cells ann (ann.part mem_left) same num fun col row ins => ?_
    rw [cell ins]
    split
    · next beside => exact (keeps beside.1 col row (same ▸ ins) beside.2).symm
    · rfl

/-- Two negations or complements. -/
lemma eval_twice {op : UnaryOp} (ann : (Expr.unary op (.unary op y s) ty).IsAnnotated site) :
    y.eval I = (Expr.unary op (.unary op y s) ty).eval I := by
  have inner := ann.part mem_operand
  obtain rfl : s = ty := Ty.unary?_eq ann.fits
  cases op with
  | negate =>
    have num : s.IsNumeric := Ty.isNumeric_of_negate inner.fits
    have same : y.ty = s := Ty.unary?_eq inner.fits
    refine eval_eq_of_cells ann (inner.part mem_operand) same num fun col row ins => ?_
    rw [ann.cell_negate.2 col row ins, inner.cell_negate.2 col row ins, neg_neg]
  | not =>
    have isBool : y.ty = Ty.bool := (Ty.unary?_eq_some.mp inner.fits).2
    have val := (eval_ty I (inner.part mem_operand)).trans isBool
    rw [eval, eval, eq_ofBool val]
    cases (y.eval I).truth <;> rfl

/-- A chain of an associative operator without matrices may be nested to the left. -/
lemma eval_nest_left {a b : Expr} {t : Ty} (wise : IsComponentWise op)
    (calcs : Calculates u op (fun _ => True) f) (associative : ∀ x y z, f (f x y) z = f x (f y z))
    (ann : (Expr.binary op a (.binary op b c s) ty).IsAnnotated site)
    (annNew : (Expr.binary op (.binary op a b t) c ty).IsAnnotated site)
    (nmA : a.ty.isMatrix = false) (nmB : b.ty.isMatrix = false) (nmC : c.ty.isMatrix = false) :
    (Expr.binary op (.binary op a b t) c ty).eval I
      = (Expr.binary op a (.binary op b c s) ty).eval I := by
  have inner := ann.part mem_right
  have innerNew := annNew.part mem_left
  have nmS : s.isMatrix = false := Ty.isMatrix_binary? inner.fits nmB nmC
  have nmT : t.isMatrix = false := Ty.isMatrix_binary? innerNew.fits nmA nmB
  obtain ⟨-, fitsS, num⟩ := Ty.componentWise?_fitsIn
    ((binary?_eq_componentWise? wise nmA nmS).symm.trans ann.fits)
  obtain ⟨fitsT, -⟩ := Ty.componentWise?_fitsIn
    ((binary?_eq_componentWise? wise nmT nmC).symm.trans annNew.fits)
  refine eval_eq_of_cells ann annNew rfl num fun col row ins => ?_
  rw [annNew.cell_wise wise calcs nmT nmC ins trivial,
    innerNew.cell_wise wise calcs nmA nmB (fitsT.hasCell ins) trivial,
    ann.cell_wise wise calcs nmA nmS ins trivial,
    inner.cell_wise wise calcs nmB nmC (fitsS.hasCell ins) trivial, associative]

/-- Factors without matrices may be exchanged. -/
lemma eval_exchange (ann : (Expr.binary .multiply left right ty).IsAnnotated site)
    (annNew : (Expr.binary .multiply right left ty).IsAnnotated site)
    (nmL : left.ty.isMatrix = false) (nmR : right.ty.isMatrix = false) :
    (Expr.binary .multiply right left ty).eval I
      = (Expr.binary .multiply left right ty).eval I := by
  have num := (Ty.multiplies ann.fits).isNumeric.2.2
  refine eval_eq_of_cells ann annNew rfl num fun col row ins => ?_
  rw [annNew.cell_wise .multiply calculates_multiply nmR nmL ins trivial,
    ann.cell_wise .multiply calculates_multiply nmL nmR ins trivial, mul_comm]

/-! ## Like terms -/

/-- Whether a term counts the same beside a matrix as its coefficient does: a number times a vector
or a matrix does not, and neither does a number without a coefficient. -/
def CountsEvenly (e : Expr) : Prop :=
  match e.splitTerm with
  | (some coefficient, rest) => coefficient.ty.isScalar = true → rest.ty.isScalar = true
  | (none, rest) => rest.ty.isScalar = false

/-- If a coefficient is a matrix, both terms count evenly. -/
def CollectsEvenly (left right : Expr) : Prop :=
  (∃ c, (c ∈ left.splitTerm.1 ∨ c ∈ right.splitTerm.1) ∧ c.ty.isMatrix = true) →
    left.CountsEvenly ∧ right.CountsEvenly

/-- A term is what its coefficient gives to the product. -/
lemma cell_share {own : Option Expr} (split : e.splitTerm = (own, term))
    (ann : e.IsAnnotated site) (annC : c.IsAnnotated site) (m : Ty.Multiplies s term.ty ty)
    (fitsC : c.ty.FitsIn s) (fits : e.ty.FitsIn ty)
    (coeff : own = some c ∨ own = none ∧ Holds 1 c ∧ s = c.ty)
    (even : s.isMatrix → e.CountsEvenly)
    (ins : ty.HasCell col row) :
    (Ty.pairing s term.ty).sum (c.eval I).cell (term.eval I).cell col row
      = (e.eval I).cell col row := by
  have counts : s.isMatrix → match (own, term) with
      | (some coefficient, rest) => coefficient.ty.isScalar → rest.ty.isScalar
      | (none, rest) => rest.ty.isScalar = false := by
    rw [← split]
    exact even
  rcases coeff with rfl | ⟨rfl, holds, rfl⟩
  · obtain ⟨t, rfl⟩ : ∃ t, e = .binary .multiply c term t := by
      unfold splitTerm at split
      split at split <;> cases split
      exact ⟨_, rfl⟩
    rw [ann.cell_multiply (fits.hasCell ins)]
    congr 1
    rcases fitsC.2 with scal | conv
    · rw [Ty.pairing_of_isScalar (.inl scal)]
      exact m.pairing_eq_wise (Ty.multiplies ann.fits) scal fits fun mat => counts mat scal
    · exact (Ty.pairing_of_convertsTo conv).symm
  · obtain rfl : e = term := by
      unfold splitTerm at split
      split at split <;> cases split
      rfl
    rw [m.sum_congr ins (fun _ _ ins => HasCell.cell_of_holds ⟨annC, fitsC.1, ins⟩ holds)
      fun _ _ _ => rfl]
    rcases fits.2 with scal | conv
    · have nm : c.ty.isMatrix = false := by
        by_contra mat
        simp [counts (by simpa using mat)] at scal
      rw [Ty.pairing_of_isScalar (.inr scal), Ty.Pairing.sum_wise, Ty.splat_of_isMatrix nm,
        Int.cast_one, one_mul]
    · rw [m.splat_sum conv ins _ fun nm => by
        rw [ann.cell_eq_part nm, ann.cell_eq_part nm], Int.cast_one, one_mul]

/-- A coefficient is written, or it is a one of the type of the other, which is written. -/
lemma coefficient?_cases {a b : Option Expr} (fst : coefficient? a b = some c)
    (snd : coefficient? b (some c) = some d) :
    (a = some c ∨ a = none ∧ b = some d ∧ one? d.ty = some c)
      ∧ (b = some d ∨ b = none ∧ a = some c ∧ one? c.ty = some d) := by
  cases a <;> cases b <;> simp_all [coefficient?]

/-- The sum or difference of two multiples of one term, with matrices or not. -/
lemma eval_collected {a b : Option Expr} {oth : Expr} (linear : op = .add ∨ op = .subtract)
    (calcs : Calculates u op (fun _ => True) f)
    (distributes : ∀ (p : Ty.Pairing) g h k col row,
      p.sum (fun col row => f (g col row) (h col row)) k col row
        = f (p.sum g k col row) (p.sum h k col row))
    (ann : (Expr.binary op left right ty).IsAnnotated site)
    (annNew : (Expr.binary .multiply (.binary op c d s) term ty).IsAnnotated site)
    (splitL : left.splitTerm = (a, term)) (splitR : right.splitTerm = (b, oth))
    (agree : term.agrees oth) (fst : coefficient? a b = some c)
    (snd : coefficient? b (some c) = some d) (even : CollectsEvenly left right) :
    (Expr.binary .multiply (.binary op c d s) term ty).eval I
      = (Expr.binary op left right ty).eval I := by
  have wise {x y : Expr} {t : Ty} (ann : (Expr.binary op x y t).IsAnnotated site) :
      Ty.componentWise? x.ty y.ty = some t := by
    rcases linear with rfl | rfl <;> exact ann.fits
  have annSum := annNew.part mem_left
  obtain ⟨fitsL, fitsR, num⟩ := Ty.componentWise?_fitsIn (wise ann)
  obtain ⟨fitsC, fitsD, -⟩ := Ty.componentWise?_fitsIn (wise annSum)
  have m : Ty.Multiplies s term.ty ty := Ty.multiplies annNew.fits
  obtain ⟨coeffC, coeffD⟩ := coefficient?_cases fst snd
  have typeOf {x : Expr} {t : Ty} (found : one? t = some x) : x.ty = t :=
    (@constant?_isAnnotated site _ _ _ found).2
  -- A coefficient that is missing has the type of the other, and so has their sum.
  have oneC (absent : a = none ∧ b = some d ∧ one? d.ty = some c) :
      a = none ∧ Holds 1 c ∧ s = c.ty :=
    ⟨absent.1, holds_of_one? fitsD.1 absent.2.2,
      Ty.componentWise?_self (by simpa only [typeOf absent.2.2] using wise annSum)⟩
  have oneD (absent : b = none ∧ a = some c ∧ one? c.ty = some d) :
      b = none ∧ Holds 1 d ∧ s = d.ty :=
    ⟨absent.1, holds_of_one? fitsC.1 absent.2.2,
      Ty.componentWise?_self (by simpa only [typeOf absent.2.2] using wise annSum)⟩
  have shares (mat : s.isMatrix) : left.CountsEvenly ∧ right.CountsEvenly := by
    have either : c.ty.isMatrix ∨ d.ty.isMatrix := by
      by_contra neither
      simp only [not_or, Bool.not_eq_true] at neither
      simp [Ty.isMatrix_binary? annSum.fits neither.1 neither.2] at mat
    refine even ?_
    rw [splitL, splitR]
    rcases coeffC with rfl | ⟨-, rfl, found⟩
    · rcases either with mat | mat
      · exact ⟨c, .inl rfl, mat⟩
      · rcases coeffD with rfl | ⟨-, -, found⟩
        · exact ⟨d, .inr rfl, mat⟩
        · exact ⟨c, .inl rfl, typeOf found ▸ mat⟩
    · refine ⟨d, .inr rfl, ?_⟩
      rwa [typeOf found, or_self] at either
  have annTerm := annNew.part mem_right
  have annOther : oth.IsAnnotated site := fun x ins =>
    ann.part mem_right x (ins.trans (splitTerm_within splitR).1)
  have sameV := eval_agrees I agree
  have sameT : term.ty = oth.ty := by rw [← eval_ty I annTerm, sameV, eval_ty I annOther]
  refine eval_eq_of_cells ann annNew rfl num fun col row ins => ?_
  rw [ann.cell_linear linear calcs ins, annNew.cell_multiply ins]
  refine (m.sum_congr ins (fun _ _ => annSum.cell_linear linear calcs) fun _ _ _ => rfl).trans ?_
  rw [distributes]
  refine congrArg₂ f ?_ ?_
  · exact cell_share splitL (ann.part mem_left) (annSum.part mem_left) m fitsC fitsL
      (coeffC.imp_right oneC) (fun mat => (shares mat).1) ins
  · rw [sameV, sameT]
    exact cell_share splitR (ann.part mem_right) (annSum.part mem_right) (sameT ▸ m) fitsD fitsR
      (coeffD.imp_right oneD) (fun mat => (shares mat).2) ins

/-- The sum or difference of a term and itself. -/
lemma eval_like (linear : op = .add ∨ op = .subtract) (calcs : Calculates u op (fun _ => True) f)
    (ann : (Expr.binary op left right ty).IsAnnotated site) (annNew : new.IsAnnotated site)
    (same : new.ty = ty) (agree : left.agrees right)
    (cells : ty = left.ty → ∀ col row, left.HasCell site col row →
      (new.eval I).cell col row = f ((left.eval I).cell col row) ((left.eval I).cell col row)) :
    new.eval I = (Expr.binary op left right ty).eval I := by
  have sameV := eval_agrees I agree
  have sameT : left.ty = right.ty := by
    rw [← eval_ty I (ann.part mem_left), sameV, eval_ty I (ann.part mem_right)]
  have wise : Ty.componentWise? left.ty right.ty = some ty := by
    rcases linear with rfl | rfl <;> exact ann.fits
  have num := (Ty.componentWise?_fitsIn wise).2.2
  refine eval_eq_of_cells ann annNew same num fun col row ins => ?_
  rw [ann.cell_linear linear calcs ins, ← sameV]
  exact cells (Ty.componentWise?_self (sameT ▸ wise)) col row (ann.operands wise ins).1

end Expr

end ShaderAlgebra
