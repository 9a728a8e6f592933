import ShaderAlgebra.Proofs.Semantics.Exact
import ShaderAlgebra.Proofs.Simplify.Typing

/-!
# Constants and literals in exact arithmetic

The rules look for zeros, ones and signs in the text of a tree: in its literals, and in constructors
that are filled with one literal (`Holds`). Here is what they find in exact arithmetic. A tree that
is recognised as filled with a number holds it (`holds_of_isFilledWith`), and so do the constants
that the rules put in (`holds_of_constant?`); a scalar or vector is then filled with it. What is
recognised as the negation of a tree has the negated parts (`part_negated?`), and trees that agree
have the same value (`eval_agrees`).
-/

namespace ShaderAlgebra

open Floating Option Arithmetic

variable {value : Literal} {nr : Double}

lemma Floating.value_negate {f : Format} (x : Floating f) : (-x).value = -x.value := by
  change (negate x).value = -x.value
  have same : (negate x).magnitude = x.magnitude := rfl
  unfold value
  rw [same]
  cases sign : x.negative <;> simp [negate, sign]

lemma Floating.isFinite_negate {f : Format} (x : Floating f) : (-x).isFinite = x.isFinite := rfl

/-! ## What literals are worth -/

namespace Arithmetic

variable {u : Unspecified}

/-- A literal that equals a finite number in binary64 is worth that number. -/
lemma worth?_of_equal {own : Double} (held : value.toDouble? = some own) (finite : nr.isFinite)
    (equal : own.equal nr) : worth? value = some nr.value := by
  have same := value_eq_of_equal equal
  cases value with
  | bool b => cases held
  | int n =>
    obtain rfl := Option.some.inj held
    rw [value_ofInt_double] at same
    exact congrArg some same
  | float x =>
    obtain rfl := Option.some.inj held
    have finiteX := isFinite_of_convert (isFinite_of_equal finite equal)
    rw [value_convert_double x finiteX] at same
    simp [worth?, finiteX, same]

/-- A literal worth an integer has it as its component in every kind of number. -/
lemma component_ofLiteral {i : Int} (worth : worth? value = some (i : Rat)) {kind : Kind}
    (num : kind.isNumeric) (col row : Nat) :
    (exact u).convert kind .float ((Value.ofLiteral value).component kind col row) = (i : Rat) := by
  cases value with
  | bool b => cases worth
  | int n =>
    have same : ((n.toInt : Int) : Rat) = i := Option.some.inj worth
    cases kind with
    | bool => cases num
    | int | float => exact same
  | float x =>
    simp only [worth?] at worth
    split at worth
    · next finite =>
      have same : exactFloat u x = i := (if_pos finite).trans (Option.some.inj worth)
      cases kind with
      | bool => cases num
      | int =>
        change ((integerPart (exactFloat u x) : Int) : Rat) = i
        rw [same, integerPart_intCast]
      | float => exact same
    · cases worth

/-- What the negation of a `float` literal stands for, unless it is a NaN. -/
lemma exactFloat_negate {x : Single} (nr : x.isNaN = false) :
    exactFloat u (-x) = -exactFloat u x := by
  have sameNaN : (-x).isNaN = x.isNaN := rfl
  have flipped : (-x).negative = !x.negative := rfl
  unfold exactFloat
  rw [isFinite_negate, value_negate, sameNaN, nr, flipped]
  cases x.isFinite <;> cases x.negative <;> simp

end Arithmetic

/-! ## Filled trees -/

namespace Expr

variable {u : Unspecified} (I : Interpretation (.exact u)) {ty : Ty} {i : Int} {e : Expr}

/-- A vector constructor with one literal fills the vector. -/
lemma isFilled_fill {fn : String} {size : Dim} {kind : Kind}
    (named : Ty.ofName? fn = some (.vector size kind)) (num : kind.isNumeric)
    (worth : worth? value = some (i : Rat)) : (I.call fn [.ofLiteral value] ty).IsFilled i := by
  have scal : (Value.ofLiteral value : Value (.exact u)).ty.isScalar := by
    rw [Value.ty_ofLiteral]
    rfl
  have built : I.call fn [.ofLiteral value] ty
      = .build (.plain (some size) kind) fun kind => (Value.ofLiteral value).component kind := by
    simp only [Interpretation.call, named, Value.construct, scal, if_true]
    rfl
  intro row ins
  rw [built] at ins ⊢
  have ins : (Ty.plain (some size) kind).HasRow row := ins
  rw [Value.part_build ins (by simp)]
  exact component_ofLiteral worth num 0 row

/-- A literal that is worth the number, or a vector or matrix made of one. -/
inductive Holds (i : Int) : Expr → Prop
  | literal {value : Literal} {ty : Ty} : worth? value = some (i : Rat) → Holds i (.literal value ty)
  | call {function : String} {value : Literal} {ty s : Ty} : worth? value = some (i : Rat) →
    ty.isVector = true ∨ ty.isMatrix = true → Ty.ofName? function = some ty →
      Holds i (.call function [.literal value s] ty)

lemma Holds.isFilled (holds : Holds i e) (plain : e.ty.IsPlain) : (e.eval I).IsFilled i := by
  cases holds with
  | literal worth => exact isFilled_ofLiteral worth
  | @call fn value ty s worth shp named =>
    obtain ⟨size, kind, rfl, num⟩ : Ty.IsPlain ty := plain
    cases size with
    | none => simp [Ty.plain, Ty.isVector, Ty.isMatrix] at shp
    | some size => exact isFilled_fill I named num worth

/-- A tree that is recognised as filled with a whole number holds it. -/
lemma holds_of_isFilledWith (finite : nr.isFinite) (whole : nr.value = i)
    (filled : e.isFilledWith nr) : Holds i e := by
  obtain ⟨own, found, equal⟩ : ∃ own, e.splat? = some own ∧ own.equal nr := by
    simpa [isFilledWith, any_eq_true] using filled
  have worth {value : Literal} (held : value.toDouble? = some own) :
      worth? value = some (i : Rat) := by
    rw [worth?_of_equal held finite equal, whole]
  unfold splat? at found
  split at found
  · exact .literal (worth found)
  · split at found
    · next shp =>
      simp only [Bool.and_eq_true, Bool.or_eq_true, decide_eq_true_eq] at shp
      exact .call (worth found) shp.1 shp.2
    · cases found
  · cases found

lemma holds_of_isZero (zero : e.isZero) : Holds 0 e :=
  holds_of_isFilledWith isFinite_zero_double (by simpa using value_zero_double) zero

lemma holds_of_isOne (one : e.isOne) : Holds 1 e :=
  holds_of_isFilledWith (isFinite_unit_double false) (by simpa using value_unit_double) one

lemma isFilled_of_isZero (plain : e.ty.IsPlain) (zero : e.isZero) : (e.eval I).IsFilled 0 := by
  exact_mod_cast (holds_of_isZero zero).isFilled I plain

lemma isFilled_of_isOne (plain : e.ty.IsPlain) (one : e.isOne) : (e.eval I).IsFilled 1 := by
  exact_mod_cast (holds_of_isOne one).isFilled I plain

lemma holds_of_isMinusOne (minus : e.isMinusOne) : Holds (-1) e := by
  obtain ⟨own, found, equal⟩ : ∃ own, e.literal?.bind Literal.toDouble? = some own
        ∧ own.equal (Floating.unit true) := by
    simpa [isMinusOne, any_eq_true] using minus
  obtain ⟨value, lit, held⟩ := bind_eq_some_iff.mp found
  have worth := worth?_of_equal held (isFinite_unit_double true) equal
  rw [value_minusUnit_double] at worth
  cases e with
  | literal own ty =>
    obtain rfl : own = value := by simpa [literal?] using lit
    exact .literal (by exact_mod_cast worth)
  | _ => cases lit

/-- A constant holds its number, if each literal of that number is worth it. -/
lemma holds_of_constant? (num : ty.kind?.any Kind.isNumeric)
    (each : ∀ kind ∈ [.int, .float], worth? (.ofDouble kind nr) = some (i : Rat))
    (found : constant? ty nr = some e) : Holds i e := by
  have worth {kind : Kind} (num : kind.isNumeric) :
      worth? (.ofDouble kind nr) = some (i : Rat) := by
    cases kind with
    | bool => cases num
    | int | float => exact each _ (by simp)
  unfold constant? at found
  split at found
  · split at found <;> cases found
    exact .literal (worth num)
  · next size kind =>
    split at found <;> cases found
    exact .call (worth num) (.inl rfl) (ofName?_text_vector size kind)
  · next cols rows =>
    cases found
    exact .call (@worth .float rfl) (.inr rfl) (ofName?_text_matrix cols rows)
  · cases found

/-- What the literals of zero, one and two are worth. -/
lemma worth?_literals : (∀ kind ∈ [.int, .float],
      worth? (.ofDouble kind (.zero false)) = some ((0 : Int) : Rat)
        ∧ worth? (.ofDouble kind (.unit false)) = some ((1 : Int) : Rat))
      ∧ worth? (.float .zero) = some 0 ∧ worth? (.float .one) = some 1
      ∧ worth? (.float .two) = some 2 := by
  decide +kernel

lemma holds_of_zero? (num : ty.kind?.any Kind.isNumeric) (found : zero? ty = some e) : Holds 0 e :=
  holds_of_constant? num (fun _ mem => (worth?_literals.1 _ mem).1) found

lemma holds_of_one? (num : ty.kind?.any Kind.isNumeric) (found : one? ty = some e) : Holds 1 e :=
  holds_of_constant? num (fun _ mem => (worth?_literals.1 _ mem).2) found

lemma isFilled_zero? (plain : ty.IsPlain) (found : zero? ty = some e) : (e.eval I).IsFilled 0 := by
  have typed : e.ty = ty := (@constant?_isAnnotated ⟨.empty, none⟩ _ _ _ found).2
  exact_mod_cast (holds_of_zero? plain.isNumeric found).isFilled I (typed ▸ plain)

lemma isFilled_one? (plain : ty.IsPlain) (found : one? ty = some e) : (e.eval I).IsFilled 1 := by
  have typed : e.ty = ty := (@constant?_isAnnotated ⟨.empty, none⟩ _ _ _ found).2
  exact_mod_cast (holds_of_one? plain.isNumeric found).isFilled I (typed ▸ plain)

lemma holds_of_twoFor? (found : twoFor? ty = some e) : Holds 2 e := by
  obtain ⟨kind, -, rfl⟩ := map_eq_some_iff.mp found
  cases kind with
  | int => exact .literal rfl
  | bool | float => exact .literal (by exact_mod_cast worth?_literals.2.2.2)

/-! ## Negations -/

lemma toInt_of_int32? {n : Int32} (found : int32? i = some n) : n.toInt = i := by
  have low : Int32.minValue.toInt = -2147483648 := by decide
  have high : Int32.maxValue.toInt = 2147483647 := by decide
  simp only [int32?, low, high] at found
  split at found
  · next range =>
    obtain rfl := Option.some.inj found
    exact Int32.toInt_ofInt_of_le (by omega) (by omega)
  · cases found

/-- What is found as the negation of a tree has its type and the negated parts. -/
lemma part_negated? {site : Site} {y : Expr} (ann : e.IsAnnotated site)
    (plain : e.ty.IsPlain) (negated : e.negated? = some y) :
    y.ty = e.ty ∧ ∀ row, e.ty.HasRow row → (y.eval I).part row = -(e.eval I).part row := by
  unfold negated? at negated
  split at negated
  · next opd ty =>
    obtain rfl : opd = y := Option.some.inj negated
    have fits : Ty.unary? .negate opd.ty = some ty := ann.fits
    have same : opd.ty = ty := Ty.unary?_eq fits
    refine ⟨same, fun row ins => ?_⟩
    have typed : (opd.eval I).ty = ty := (eval_ty I (ann.part mem_operand)).trans same
    have flipped : ((Expr.unary .negate opd ty).eval I).part row = -(opd.eval I).part row :=
      Value.part_negate (typed ▸ plain) (typed ▸ ins)
    rw [flipped, neg_neg]
  · next x s =>
    split at negated
    · next neg =>
      obtain rfl := Option.some.inj negated
      have nr : x.isNaN = false := by
        simp only [Floating.less, Bool.and_eq_true, Bool.not_eq_true'] at neg
        exact neg.1.1
      refine ⟨Eq.symm ann.fits, fun row _ => ?_⟩
      exact exactFloat_negate nr
    · cases negated
  · next n s =>
    split at negated
    · obtain ⟨m, found, rfl⟩ := map_eq_some_iff.mp negated
      refine ⟨Eq.symm ann.fits, fun row _ => ?_⟩
      change ((m.toInt : Int) : Rat) = -((n.toInt : Int) : Rat)
      rw [toInt_of_int32? found, Int.cast_neg]
    · cases negated
  · cases negated

/-! ## Trees that agree -/

lemma ofLiteral_agrees {a b : Literal} (agree : a.agrees b) :
    (Value.ofLiteral a : Value (.exact u)) = .ofLiteral b := by
  cases a with
  | bool x | int x => cases b <;> simp_all [Literal.agrees]
  | float x =>
    cases b with
    | float y =>
      simp only [Literal.agrees, Floating.equal, Bool.and_eq_true, beq_iff_eq] at agree
      rcases eq_or_zero_of_rank_eq agree.2 with rfl | ⟨zeroX, zeroY⟩
      · rfl
      · -- The two zeros are different literals that are worth the same.
        have worthless {z : Single} (zero : z.isZero) : Arithmetic.exactFloat u z = 0 := by
          have finite : z.isFinite := by
            simp only [Floating.isZero, Bool.and_eq_true, beq_iff_eq] at zero
            simp only [Floating.isFinite, zero.1]
            decide
          exact (if_pos finite).trans (value_of_isZero zero)
        exact congrArg (Value.mk Ty.float) ((worthless zeroX).trans (worthless zeroY).symm)
    | _ => simp [Literal.agrees] at agree

/-- Trees that agree have the same value. -/
lemma eval_agrees {a b : Expr} (agree : a.agrees b) : a.eval I = b.eval I := by
  induction a using Expr.induction generalizing b with
  | node a ih =>
    unfold agrees at agree
    -- One case to each form; that the forms differ is refuted right away.
    split at agree <;> simp only [Bool.and_eq_true, beq_iff_eq, Bool.false_eq_true] at agree
    · exact ofLiteral_agrees agree.1
    · obtain ⟨rfl, rfl⟩ := agree
      rfl
    · next base name ty base' oth ty' =>
      obtain ⟨⟨sameBase, rfl⟩, -⟩ := agree
      rw [eval, eval, ih base mem_base sameBase]
    · next base pos ty base' pos' ty' =>
      obtain ⟨⟨sameBase, samePosition⟩, -⟩ := agree
      rw [eval, eval, ih base mem_indexed sameBase, ih pos mem_position samePosition]
    · next op opd ty op' opd' ty' =>
      obtain ⟨⟨rfl, sameOperand⟩, -⟩ := agree
      rw [eval, eval, ih opd mem_operand sameOperand]
    · next op left right ty op' left' right' ty' =>
      obtain ⟨⟨⟨rfl, sameL⟩, sameR⟩, -⟩ := agree
      rw [eval, eval, ih left mem_left sameL, ih right mem_right sameR]
    · obtain ⟨⟨rfl, same⟩, rfl⟩ := agree
      rw [eval, eval, evalAll_eq, evalAll_eq, map_eq_of_agreeAll same fun part mem _ => ih part mem]
    · next cond acc rej ty cond' acc' rej' ty' =>
      obtain ⟨⟨⟨sameCondition, sameAccept⟩, sameReject⟩, -⟩ := agree
      rw [eval, eval, ih cond mem_condition sameCondition,
        ih acc mem_accept sameAccept, ih rej mem_reject sameReject]
    · next op tgt value ty op' tgt' val' ty' =>
      obtain ⟨⟨⟨rfl, sameTarget⟩, sameValue⟩, -⟩ := agree
      rw [eval, eval, ih tgt mem_target sameTarget, ih value mem_value sameValue]

end Expr

end ShaderAlgebra
