import ShaderAlgebra.Proofs.Semantics.IntegerCode
import ShaderAlgebra.Proofs.Simplify.Constants

/-!
# Simplification of integer code is exact

Simplified with every rule, integer code keeps its value in 32-bit arithmetic that wraps around,
whatever its variables are and whatever operations give where they are not defined.

Regrouping and collecting terms are identities of the integers modulo `2 ^ 32`
(`RewritesTo.amountsTo`). Folding is exact because it gives up where a result leaves the range, and
that is also where operations are not defined (`literalValue?_eq`). What is dropped unevaluated may
be undefined, but it has some value, and zero times that is zero.
-/

namespace ShaderAlgebra

open Option List Floating Int32

variable {ints : List Int32} {folded value : Literal} {n : Int32} {i : Int} {e : Expr}

lemma eq_ofInt_of_int32? (found : int32? i = some n) : n = .ofInt i := by
  rw [int32?] at found
  split at found
  · exact (Option.some.inj found).symm
  · cases found

namespace Expr

variable {u : Undefined} {I : Interpretation (.wrapping u)}

namespace AmountsTo

variable {e new : Expr} {value : Literal} {x y : Int32}

/-! ### Constants -/

section

variable (amounts : AmountsTo I e (.int x))

include amounts

/-- A literal that is recognised as a whole number is that number. -/
lemma toInt_eq {held : Literal} {own num : Double} (lit : e.literal? = some held)
    (double : held.toDouble? = some own) (finite : num.isFinite) (whole : num.value = i)
    (equal : own.equal num) : x.toInt = i := by
  obtain rfl := amounts.literal?_eq lit
  have worth := Arithmetic.worth?_of_equal double finite equal
  have same : ((x.toInt : Int) : Rat) = i := by
    rw [← whole]
    exact Option.some.inj worth
  exact_mod_cast same

lemma toInt_of_isFilledWith {num : Double} (finite : num.isFinite) (whole : num.value = i)
    (filled : e.isFilledWith num) : x.toInt = i := by
  obtain ⟨own, found, equal⟩ : ∃ own, e.splat? = some own ∧ own.equal num := by
    simpa [isFilledWith, Option.any_eq_true] using filled
  have scal := amounts.integral.ty
  unfold splat? at found
  split at found
  · exact amounts.toInt_eq rfl found finite whole equal
  · simp only [Expr.ty] at scal
    simp [scal, Ty.isVector, Ty.isMatrix] at found
  · cases found

lemma eq_zero (zero : e.isZero) : x = 0 := by
  have same := amounts.toInt_of_isFilledWith (i := 0) isFinite_zero_double
    (by simpa using value_zero_double) zero
  exact toInt_inj.mp same

lemma eq_one (one : e.isOne) : x = 1 := by
  have same := amounts.toInt_of_isFilledWith (i := 1) (isFinite_unit_double false)
    (by simpa using value_unit_double) one
  exact toInt_inj.mp same

lemma eq_minusOne (minus : e.isMinusOne) : x = -1 := by
  obtain ⟨own, found, equal⟩ : ∃ own, e.literal?.bind Literal.toDouble? = some own
        ∧ own.equal (Floating.unit true) := by
    simpa [isMinusOne, Option.any_eq_true] using minus
  obtain ⟨held, lit, double⟩ := bind_eq_some_iff.mp found
  have same := amounts.toInt_eq (i := -1) lit double (isFinite_unit_double true)
    (by simpa using value_minusUnit_double) equal
  exact toInt_inj.mp same

end

lemma constant? {value : Double} (held : Literal.ofDouble .int value = .int x)
    (found : constant? Ty.int value = some e) : AmountsTo I e (.int x) := by
  obtain rfl : Expr.ofLiteral (.ofDouble .int value) = e := Option.some.inj found
  rw [held]
  exact .ofLiteral nofun

lemma zero? (found : zero? Ty.int = some e) : AmountsTo I e (.int 0) :=
  constant? (by decide +kernel) found

lemma one? (found : one? Ty.int = some e) : AmountsTo I e (.int 1) :=
  constant? (by decide +kernel) found

/-- What is found as the negation of a tree has the negated value. -/
lemma negated? (amounts : AmountsTo I e (.int x)) (found : e.negated? = some new) :
    AmountsTo I new (.int (-x)) := by
  unfold Expr.negated? at found
  split at found
  · cases found
    obtain ⟨y, inner, same⟩ := amounts.of_negate
    obtain rfl := Literal.int.inj same
    simpa using inner
  · cases amounts.literal?_eq rfl
  · split at found
    · obtain ⟨y, inRange, rfl⟩ := map_eq_some_iff.mp found
      obtain rfl := Literal.int.inj (amounts.literal?_eq rfl)
      rw [eq_ofInt_of_int32? inRange, ofInt_neg, ofInt_toInt]
      exact .ofLiteral nofun
    · cases found
  · cases found

/-! ### Terms -/

/-- The coefficient of a term is one factor of its value, and the rest is the other. -/
lemma splitTerm {rest : Expr} {coeff : Option Expr} (amounts : AmountsTo I e (.int x))
    (split : e.splitTerm = (coeff, rest)) :
    ∃ y, AmountsTo I rest (.int y) ∧ (coeff = none → x = y)
      ∧ ∀ c, coeff = some c → ∃ z, AmountsTo I c (.int z) ∧ x = z * y := by
  unfold Expr.splitTerm at split
  split at split
  · cases split
    obtain ⟨z, y, fst, snd, same⟩ := amounts.of_arithmetic rfl
    refine ⟨y, snd, nofun, fun c isC => ?_⟩
    obtain rfl := Option.some.inj isC
    exact ⟨z, fst, Literal.int.inj same⟩
  · cases split
    exact ⟨x, amounts, fun _ => rfl, nofun⟩

/-- A term without a coefficient counts once. -/
lemma coefficient? {own oth : Option Expr} {c : Expr} (found : coefficient? own oth = some c)
    (alone : own = none → x = y)
    (ownValue : ∀ c, own = some c → ∃ z, AmountsTo I c (.int z) ∧ x = z * y)
    (otherInt : ∀ c, oth = some c → ∃ z, AmountsTo I c (.int z)) :
    ∃ z, AmountsTo I c (.int z) ∧ x = z * y := by
  cases own with
  | some e =>
    obtain rfl : e = c := Option.some.inj found
    exact ownValue e rfl
  | none =>
    obtain ⟨s, present, one⟩ := bind_eq_some_iff.mp found
    obtain ⟨z, amounts⟩ := otherInt s present
    rw [amounts.integral.ty] at one
    exact ⟨1, .one? one, by rw [alone rfl, Int32.one_mul]⟩

end AmountsTo

/-! ## Changes -/

/-- Every change that a rule other than constant folding makes keeps the value of integer code. -/
lemma RewritesTo.amountsTo {new : Expr} (chg : RewritesTo e new) (old : AmountsTo I e value) :
    AmountsTo I new value := by
  cases chg
  case' addZero | subtractZero | zeroAdd | addNegated | negatedAdd | zeroSubtract
      | subtractNegated | multiplyOne | oneMultiply | multiplyZero | minusOneMultiply
      | multiplyMinusOne | multiplyNegations | divideOne | literalFirst | double | cancel =>
    obtain ⟨x, y, left, right, rfl⟩ := old.of_arithmetic rfl
  case addZero zero | subtractZero zero =>
    obtain rfl := right.eq_zero zero
    simpa [Undefined.onInts] using left
  case zeroAdd zero =>
    obtain rfl := left.eq_zero zero
    simpa [Undefined.onInts] using right
  case addNegated negated built =>
    simpa [Undefined.onInts] using left.binaryOf (right.negated? negated) built
  case negatedAdd negated built =>
    simpa [Undefined.onInts, Int32.add_comm] using right.binaryOf (left.negated? negated) built
  case zeroSubtract zero built =>
    obtain rfl := left.eq_zero zero
    simpa [Undefined.onInts] using right.unaryOf built
  case subtractNegated negated built =>
    exact (left.binaryOf (right.negated? negated) built).of_eq (Int32.sub_eq_add_neg x y).symm
  case multiplyOne one =>
    obtain rfl := right.eq_one one
    simpa [Undefined.onInts] using left
  case oneMultiply one =>
    obtain rfl := left.eq_one one
    simpa [Undefined.onInts] using right
  case multiplyZero zero found =>
    obtain rfl : _ = Ty.int := old.integral.ty
    refine (AmountsTo.zero? found).of_eq ?_
    rcases zero with zero | zero
    · rw [left.eq_zero zero, Int32.zero_mul]
    · rw [right.eq_zero zero, Int32.mul_zero]
  case minusOneMultiply minus built =>
    obtain rfl := left.eq_minusOne minus
    exact (right.unaryOf built).of_eq (by grind)
  case multiplyMinusOne minus built =>
    obtain rfl := right.eq_minusOne minus
    exact (left.unaryOf built).of_eq (by grind)
  case multiplyNegations built =>
    obtain ⟨a, innerLeft, same⟩ := left.of_negate
    obtain rfl := Literal.int.inj same
    obtain ⟨b, innerRight, same⟩ := right.of_negate
    obtain rfl := Literal.int.inj same
    exact (innerLeft.binaryOf innerRight built).of_eq (by grind)
  case divideOne one =>
    obtain rfl := right.eq_one one
    exact left.of_eq (u.divide_one x).symm
  case twice op s ty =>
    cases op with
    | negate =>
      obtain ⟨x, out, rfl⟩ := old.of_negate
      obtain ⟨y, inner, same⟩ := out.of_negate
      obtain rfl := Literal.int.inj same
      simpa using inner
    | not =>
      obtain ⟨a, out, rfl⟩ := old.of_not
      obtain ⟨b, inner, same⟩ := out.of_not
      obtain rfl := Literal.bool.inj same
      simpa using inner
  case powerOne pow _ | powerZero pow _ _ => exact absurd pow old.integral.ne_pow
  case choose =>
    obtain ⟨b, cond, chosen⟩ := old.of_conditional
    obtain rfl := Literal.bool.inj (cond.literal?_eq rfl)
    exact chosen
  case either agree =>
    obtain ⟨b, _, chosen⟩ := old.of_conditional
    obtain rfl := old.integral.of_conditional.2.1.eq_of_agrees agree
    simpa using chosen
  case literalFirst _ _ _ _ _ built =>
    simpa [Undefined.onInts, Int32.mul_comm] using right.binaryOf left built
  case nestLeft either _ _ _ _ _ inner out =>
    obtain ⟨x, _, left, right, rfl⟩ := old.of_arithmetic (by rcases either with rfl | rfl <;> rfl)
    obtain ⟨y, z, mid, last, same⟩ := right.of_arithmetic (by rcases either with rfl | rfl <;> rfl)
    rcases either with rfl | rfl <;> obtain rfl := Literal.int.inj same
    · exact ((left.binaryOf mid inner).binaryOf last out).of_eq (Int32.add_assoc x y z)
    · exact ((left.binaryOf mid inner).binaryOf last out).of_eq (Int32.mul_assoc x y z)
  case double agree two built =>
    obtain rfl := left.integral.eq_of_agrees agree
    obtain rfl := Literal.int.inj (left.unique right)
    rw [left.integral.ty] at two
    obtain rfl : ofInt 2 = _ := Option.some.inj two
    have twice : AmountsTo I (ofInt 2) (.int 2) := .ofLiteral nofun
    exact (twice.binaryOf left built).of_eq (by grind)
  case cancel agree found =>
    obtain rfl := left.integral.eq_of_agrees agree
    obtain rfl := Literal.int.inj (left.unique right)
    obtain rfl : _ = Ty.int := old.integral.ty
    exact (AmountsTo.zero? found).of_eq (by grind)
  case collect either splitLeft splitRight agree first second sum product =>
    obtain ⟨x, y, left, right, rfl⟩ := old.of_arithmetic (by rcases either with rfl | rfl <;> rfl)
    obtain ⟨t, term, aloneLeft, ownLeft⟩ := left.splitTerm splitLeft
    obtain ⟨_, oth, aloneRight, ownRight⟩ := right.splitTerm splitRight
    obtain rfl := term.integral.eq_of_agrees agree
    obtain rfl := Literal.int.inj (term.unique oth)
    obtain ⟨m, coefficientLeft, rfl⟩ := AmountsTo.coefficient? first aloneLeft ownLeft
      fun c isC => (ownRight c isC).imp fun _ both => both.1
    obtain ⟨n, coefficientRight, rfl⟩ := AmountsTo.coefficient? second aloneRight ownRight
      fun c isC => ⟨m, Option.some.inj isC ▸ coefficientLeft⟩
    rcases either with rfl | rfl <;>
      exact ((coefficientLeft.binaryOf coefficientRight sum).binaryOf term product).of_eq (by grind)

end Expr

/-! ## Constant folding -/

namespace Undefined

variable (u : Undefined)

/-- Where a quotient is in range, division is defined. -/
lemma divides_of_int32? {x y : Int32} (nz : y.toInt ≠ 0)
    (inRange : int32? (x.toInt.tdiv y.toInt) = some n) : Divides x y := by
  refine ⟨fun zero => nz (zero ▸ rfl), ?_⟩
  rintro ⟨rfl, rfl⟩
  have beyond : int32? (Int32.minValue.toInt.tdiv (-1 : Int32).toInt) = none := by decide
  rw [beyond] at inRange
  cases inRange

/-- An operator on two integer literals folds to its value. -/
lemma onInts_eq {op : BinaryOp} {x y : Int32} (found : Literal.onInts? op x y = some folded) :
    folded = u.onInts op x y := by
  have inRange {i : Int} (found : (int32? i).map Literal.int = some folded) :
      folded = .int (.ofInt i) := by
    obtain ⟨n, ins, rfl⟩ := map_eq_some_iff.mp found
    rw [eq_ofInt_of_int32? ins]
  cases op with
  | add => rw [inRange found, ofInt_add, ofInt_toInt, ofInt_toInt, onInts]
  | subtract => rw [inRange found, ofInt_sub, ofInt_toInt, ofInt_toInt, onInts]
  | multiply => rw [inRange found, ofInt_mul, ofInt_toInt, ofInt_toInt, onInts]
  | divide =>
    simp only [Literal.onInts?] at found
    split at found
    · cases found
    · next nz =>
      obtain ⟨n, ins, rfl⟩ := map_eq_some_iff.mp found
      rw [eq_ofInt_of_int32? ins, onInts, divide, if_pos (divides_of_int32? nz ins)]
  | modulo =>
    simp only [Literal.onInts?] at found
    split at found
    · cases found
    · next nz =>
      obtain ⟨n, ins, found⟩ := bind_eq_some_iff.mp found
      obtain ⟨m, insideRemainder, found⟩ := bind_eq_some_iff.mp found
      cases found
      rw [eq_ofInt_of_int32? insideRemainder, onInts, modulo, if_pos (divides_of_int32? nz ins)]
  | less | lessEqual | greater | greaterEqual =>
    obtain rfl := Option.some.inj found
    simp [onInts, lt_iff_toInt_lt, le_iff_toInt_le]
  | equal | notEqual =>
    obtain rfl := Option.some.inj found
    simp [onInts, ← toInt_inj, bne, Bool.beq_eq_decide_eq]
  | logicalAnd | logicalOr => cases found

end Undefined

lemma Literal.onBools_eq {op : BinaryOp} {a b : Bool} (found : onBools? op a b = some folded) :
    folded = onBools op a b := by
  cases op with
  | equal | notEqual | logicalAnd | logicalOr => exact (Option.some.inj found).symm
  | _ => cases found

/-! ## Built-in functions -/

namespace Undefined

variable (u : Undefined)

lemma abs_eq {a : Int32} (found : int32? a.toInt.natAbs = some n) : u.abs a = n := by
  have notLeast : a ≠ Int32.minValue := by
    rintro rfl
    have beyond : int32? Int32.minValue.toInt.natAbs = none := by decide
    rw [beyond] at found
    cases found
  rw [eq_ofInt_of_int32? found, abs, if_neg notLeast]
  by_cases negative : a < 0
  · have below : a.toInt < 0 := lt_iff_toInt_lt.mp negative
    rw [if_pos negative, Int.ofNat_natAbs_of_nonpos (Int.le_of_lt below), ofInt_neg, ofInt_toInt]
  · have above : 0 ≤ a.toInt :=
      Int.not_lt.mp fun below => negative (lt_iff_toInt_lt.mpr below)
    rw [if_neg negative, Int.natAbs_of_nonneg above, ofInt_toInt]

lemma min_eq (a b : Int32) : min a b = if b.toInt < a.toInt then b else a := by
  change (if a ≤ b then a else b) = _
  grind [le_iff_toInt_le, toInt_inj]

lemma max_eq (a b : Int32) : max a b = if a.toInt < b.toInt then b else a := by
  change (if a ≤ b then b else a) = _
  grind [le_iff_toInt_le, toInt_inj]

lemma clamp_eq {x low high : Int32} (ins : ¬high.toInt < low.toInt) : u.clamp x low high
      = if x.toInt < low.toInt then low else if high.toInt < x.toInt then high else x := by
  have ordered : low ≤ high := le_iff_toInt_le.mpr (Int.not_lt.mp ins)
  rw [clamp, if_pos ordered]
  grind [min_eq, max_eq]

end Undefined

namespace Interpretation.KnowsIntegers

variable {u : Undefined} {I : Interpretation (.wrapping u)}

/-- A built-in function on integer literals folds to its value. -/
lemma function_eq (knows : I.KnowsIntegers) {bi : Builtin} (found : bi.onInts? ints = some n) :
    I.function bi.name (ints.map fun x => .ofLiteral (.int x)) Ty.int = n := by
  unfold Builtin.onInts? at found
  split at found
  · next a => exact (knows.abs a).trans (u.abs_eq found)
  · next a =>
    refine (knows.sign a).trans (Eq.trans ?_ (Option.some.inj found))
    simp only [Undefined.sign, lt_iff_toInt_lt, ← toInt_inj]
    rfl
  · next a b => exact (knows.min a b).trans ((Undefined.min_eq a b).trans (Option.some.inj found))
  · next a b => exact (knows.max a b).trans ((Undefined.max_eq a b).trans (Option.some.inj found))
  · next x low high =>
    split at found
    · cases found
    · next ins =>
      exact (knows.clamp x low high).trans ((u.clamp_eq ins).trans (Option.some.inj found))
  · cases found

end Interpretation.KnowsIntegers

/-! ## Conversions -/

/-- A conversion of a literal folds to its value. -/
lemma Value.construct_folded {u : Undefined} {tgt : Kind} (notFloat : value.kind ≠ .float)
    (oth : tgt ≠ .float) (found : value.convert? tgt = some folded) :
    (construct (.scalar tgt) [ofLiteral value] : Value (.wrapping u)) = ofLiteral folded := by
  cases value with
  | float => exact absurd rfl notFloat
  | bool b =>
    cases tgt with
    | float => exact absurd rfl oth
    | bool | int =>
      obtain rfl := Option.some.inj found
      cases b <;> rfl
  | int n =>
    cases tgt with
    | float => exact absurd rfl oth
    | bool =>
      obtain rfl := Option.some.inj found
      change (ofLiteral (.bool !(decide (n = 0))) : Value (.wrapping u)) = _
      simp [bne, Bool.beq_eq_decide_eq]
    | int =>
      obtain rfl := Option.some.inj found
      rfl

namespace Expr

variable {u : Undefined} {I : Interpretation (.wrapping u)} {args : List Expr}

/-- The arguments of a call on integers are integers. -/
lemma exists_ints (intg : ∀ arg ∈ args, IsIntegral .int arg) (I : Interpretation (.wrapping u)) :
    ∃ ints : List Int32, Forall₂ (fun e x => AmountsTo I e (.int x)) args ints := by
  induction args with
  | nil => exact ⟨[], .nil⟩
  | cons arg args ih =>
    obtain ⟨x, fst⟩ := exists_amountsTo_int (intg arg mem_cons_self) I
    obtain ⟨ints, rest⟩ := ih fun e mem => intg e (mem_cons_of_mem _ mem)
    exact ⟨x :: ints, .cons fst rest⟩

section

variable (amount : Forall₂ (fun e x => AmountsTo I e (.int x)) args ints)

include amount

lemma evalAll_ints : evalAll I args = ints.map fun x => .ofLiteral (.int x) := by
  induction amount with
  | nil => rfl
  | cons fst _ ih => rw [evalAll, fst.eval_eq, ih, map_cons]

/-- Literal arguments that amount to integers are those integers. -/
lemma mapM_literal?_ints {held : List Literal}
    (found : args.mapM literal? = some held) : held = ints.map .int := by
  induction amount generalizing held with
  | nil => simpa using found.symm
  | cons fst _ ih =>
    simp only [mapM_cons, bind_eq_bind, bind_eq_some_iff] at found
    obtain ⟨value, lit, vals, rest, same⟩ := found
    obtain rfl : value :: vals = held := by simpa using same
    rw [fst.literal?_eq lit, ih rest, map_cons]

end

lemma mapM_ints (ints : List Int32) : (ints.map Literal.int).mapM (fun
      | .int value => some value
      | _ => none) = some ints := by
  induction ints with
  | nil => rfl
  | cons x ints ih => simp [ih]

/-- Integer code folds to its value. -/
lemma AmountsTo.literalValue?_eq (knows : I.KnowsIntegers) (amounts : AmountsTo I e value)
    (found : e.literalValue? = some folded) : folded = value := by
  cases e with
  | unary op operand ty =>
    obtain ⟨held, literal, found⟩ := bind_eq_some_iff.mp found
    cases op with
    | negate =>
      obtain ⟨x, inner, rfl⟩ := amounts.of_negate
      obtain rfl := inner.literal?_eq literal
      obtain ⟨n, inRange, rfl⟩ := map_eq_some_iff.mp found
      rw [eq_ofInt_of_int32? inRange, ofInt_neg, ofInt_toInt]
    | not =>
      obtain ⟨b, inner, rfl⟩ := amounts.of_not
      obtain rfl := inner.literal?_eq literal
      exact (Option.some.inj found).symm
  | binary op left right ty =>
    obtain ⟨heldLeft, literalLeft, found⟩ := bind_eq_some_iff.mp found
    obtain ⟨heldRight, literalRight, found⟩ := bind_eq_some_iff.mp found
    rcases amounts.of_binary with ⟨x, y, left, right, rfl⟩ | ⟨a, b, left, right, rfl⟩
    · obtain rfl := left.literal?_eq literalLeft
      obtain rfl := right.literal?_eq literalRight
      exact u.onInts_eq found
    · obtain rfl := left.literal?_eq literalLeft
      obtain rfl := right.literal?_eq literalRight
      exact Literal.onBools_eq found
  | call function args ty =>
    obtain ⟨held, literals, found⟩ := bind_eq_some_iff.mp found
    refine Value.ofLiteral_injective (u := u) (Eq.trans ?_ amounts.eval_eq)
    have integral := amounts.integral
    generalize value.kind = kind at integral
    cases integral with
    | @convert source _ argument other inner =>
      obtain ⟨own, sameKind, inside⟩ := inner.exists_amountsTo I
      simp only [mapM_cons, mapM_nil, bind_eq_bind, bind_eq_some_iff,
        Option.pure_def, Option.some.injEq] at literals
      obtain ⟨first, literal, rest, rfl, rfl⟩ := literals
      obtain rfl := inside.literal?_eq literal
      simp only [callValue?, ofName?_text_scalar] at found
      rw [eval, Interpretation.call, ofName?_text_scalar, evalAll, evalAll, inside.eval_eq]
      exact (Value.construct_folded inside.integral.ne_float other found).symm
    | @builtin builtin _ arity integers =>
      obtain ⟨ints, amount⟩ := exists_ints integers I
      obtain rfl := mapM_literal?_ints amount literals
      simp only [callValue?, Builtin.not_type, Builtin.ofName?_name, Builtin.onLiterals?,
        bind_eq_bind, bind_some] at found
      obtain ⟨own, read, found⟩ := bind_eq_some_iff.mp found
      obtain rfl : ints = own := Option.some.inj ((mapM_ints ints).symm.trans read)
      obtain ⟨n, onInts, same⟩ := bind_eq_some_iff.mp found
      obtain rfl : Literal.int n = folded := Option.some.inj same
      rw [eval, Interpretation.call, Builtin.not_type, evalAll_ints amount,
        knows.function_eq onInts]
      rfl
  | _ => cases found

end Expr
namespace Rules

variable {u : Undefined} {I : Interpretation (.wrapping u)}

/-- A change keeps the value of integer code. -/
def KeepsAmount (I : Interpretation (.wrapping u)) (e new : Expr) : Prop :=
  ∀ value, Expr.AmountsTo I e value → Expr.AmountsTo I new value

lemma KeepsAmount.mapParts {f : Expr → Expr}
    (parts : ∀ part ∈ e.children, KeepsAmount I part (f part)) :
    KeepsAmount I e (e.mapParts f) := by
  intro value amounts
  refine ⟨amounts.integral.mapParts fun part mem own intg => ?_, ?_⟩
  · obtain ⟨value, rfl, inner⟩ := intg.exists_amountsTo I
    exact (parts part mem value inner).integral
  · refine (Expr.eval_mapParts fun part mem => ?_).trans amounts.eval_eq
    obtain ⟨own, intg⟩ := amounts.integral.part mem
    obtain ⟨value, -, inner⟩ := intg.exists_amountsTo I
    exact (parts part mem value inner).eval_eq.trans inner.eval_eq.symm

lemma KeepsAmount.apply {rule : Rule} {new : Expr} (knows : I.KnowsIntegers)
    (applied : rule.apply e = some new) : KeepsAmount I e new := by
  intro value amounts
  have cand := (Rule.apply_eq_some applied).1
  by_cases folding : rule = .constantFolding
  · subst folding
    obtain ⟨folded, found, -, rfl⟩ := Expr.fold?_eq_some cand
    obtain rfl := amounts.literalValue?_eq knows found
    exact .ofLiteral amounts.integral.ne_float
  · exact (Expr.candidate?_rewrites folding cand).amountsTo amounts

/-- Simplification with any rules keeps the value of integer code. -/
lemma simplify_keepsAmount (rules : Rules) (knows : I.KnowsIntegers) (e : Expr) :
    KeepsAmount I e (rules.simplify e).result := by
  refine simplify_related (R := KeepsAmount I) (fun _ _ amounts => amounts)
    (fun fst snd value amounts => snd value (fst value amounts))
    KeepsAmount.mapParts ?_ e
  intro rule _ e new applied
  exact .apply knows applied

/-- Simplifying annotated integer code with every rule keeps its value in 32-bit arithmetic that
wraps around: whatever the variables are, and whatever operations give where they are not defined.
-/
theorem eval_simplify_integers {u : Undefined} {site : Site} {e t : Expr}
    (inferred : e.infer site = .ok t)
    (nodes : ∀ s, Expr.Within s t → s.isIntegerNode = true)
    (I : Interpretation (.wrapping u)) (knows : I.KnowsIntegers) :
    (simplify Rule.all t).result.eval I = t.eval I := by
  obtain ⟨kind, integral⟩ := Expr.exists_isIntegral (Expr.isAnnotated_of_infer inferred) nodes
  obtain ⟨value, -, amounts⟩ := integral.exists_amountsTo I
  rw [(simplify_keepsAmount Rule.all knows t value amounts).eval_eq, amounts.eval_eq]

/-- `n % 0 + abs(n) - (n + n) * -1`, at the least integer: the remainder and the absolute value are
not defined there, and the sum wraps around. -/
theorem eval_simplify_integers_least :
    let u : Undefined := ⟨fun a _ => a, fun _ b => b, 7, fun x _ _ => x⟩
    let symbols := (SymbolTable.empty.declare "n" Ty.int).2
    let n := Expr.ident "n" Ty.int
    let remainder := Expr.binary .modulo n (.ofInt 0) Ty.int
    let abs := Expr.call "abs" [n] Ty.int
    let twice := Expr.binary .multiply (.binary .add n n Ty.int) (.ofInt (-1)) Ty.int
    let t := Expr.binary .subtract (.binary .add remainder abs Ty.int) twice Ty.int
    let I := Interpretation.ofReads u fun _ ty =>
      (Value.ofLiteral (.int Int32.minValue) : Value (.wrapping u)).dataAs ty
    t.infer ⟨symbols, none⟩ = .ok t
      ∧ (∀ s, Expr.Within s t → s.isIntegerNode = true)
      ∧ (simplify Rule.all t).result.eval I = t.eval I := by
  intro u symbols n remainder abs twice t I
  have inferred : t.infer ⟨symbols, none⟩ = .ok t := rfl
  have nodes : ∀ s, Expr.Within s t → s.isIntegerNode = true := by
    intro s inside
    have all : t.nodes.all Expr.isIntegerNode = true := by decide
    exact List.all_eq_true.mp all s (Expr.mem_nodes.mpr inside)
  exact ⟨inferred, nodes,
    eval_simplify_integers inferred nodes I (Interpretation.ofReads_knowsIntegers u _)⟩

end Rules

end ShaderAlgebra
