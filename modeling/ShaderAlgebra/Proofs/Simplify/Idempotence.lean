import ShaderAlgebra.Proofs.Number.Exactness
import ShaderAlgebra.Proofs.Simplify.Chains

/-!
# When simplifying again changes nothing

Simplification ends on the tree after `passLimit` passes, so simplifying that tree again goes on for
`passLimit` passes more. Two things can be asked of the second run.

* It reports no change. That is so exactly if the first run came to rest: one of the trees within
  the limit is normal.
* It gives the same tree. That is weaker: the passes may also go round in a circle, as long as the
  length of the circle divides the limit.

Neither holds of every tree, for two reasons. The limit cuts off what comes to rest later: a sum of
more than `passLimit + 2` variables that is nested to the right (`idempotentAt_rightSum_iff`). And
some trees never come to rest: moving a literal factor to the front and nesting products to the left
undo each other on a product of three integers, if no two of them have a product in range that they
could be folded to (`step_product`, `step_turned`). Such a product comes back after six passes
(`product_cycles`). The limit of sixty-four is no multiple of six, so unless the factors are equal
the second run ends on another tree than the first (`idempotentAt_product_iff`).

`simplify_simplify_iff` puts these together.
-/

namespace ShaderAlgebra.Rules

open Function (minimalPeriod)

/-! ## The two conditions -/

/-- A second run gives the same tree exactly if the passes come back to it after as many passes as
the limit allows. -/
lemma idempotentAt_iff (rules : Rules) (e : Expr) :
    rules.IdempotentAt e ↔ minimalPeriod rules.step (rules.simplify e).result ∣ passLimit := by
  rw [IdempotentAt, simplify_result rules (rules.simplify e).result,
    ← Function.isPeriodicPt_iff_minimalPeriod_dvd]
  rfl

/-- A second run reports no change exactly if the first came to rest within the limit. -/
lemma simplify_simplify_changed_iff (rules : Rules) (e : Expr) :
    (rules.simplify (rules.simplify e).result).changed = false ↔
      ∃ passes ≤ passLimit, rules.IsNormal (rules.step^[passes] e) := by
  rw [simplify_changed_eq_false_iff, isNormal_simplify_iff]

/-! ## A product that never comes to rest -/

/-- The product of two `int` expressions. -/
def times (left right : Expr) : Expr := .binary .multiply left right Ty.int

/-- The product of three integers, nested to the left. -/
def product (a b c : Int32) : Expr := times (times (.ofInt a) (.ofInt b)) (.ofInt c)

/-- The same product turned by one place, and nested to the right. -/
def turned (a b c : Int32) : Expr := times (.ofInt c) (times (.ofInt a) (.ofInt b))

/-- Integers that no rule takes for a neutral element or a sign, and whose product is out of range.
-/
structure Overflow (a b : Int32) : Prop where
  outside : int32? (a.toInt * b.toInt) = none
  left : a.toInt ≠ -1
  right : b.toInt ≠ -1

lemma int32?_eq_none_iff {val : Int} :
    int32? val = none ↔ val < -2147483648 ∨ 2147483647 < val := by
  have low : Int32.minValue.toInt = -2147483648 := by decide
  have high : Int32.maxValue.toInt = 2147483647 := by decide
  simp only [int32?, low, high]
  split <;> simp <;> omega

namespace Overflow

variable {a b : Int32}

lemma symm (ovf : Overflow a b) : Overflow b a :=
  ⟨by rw [Int.mul_comm]; exact ovf.outside, ovf.right, ovf.left⟩

lemma left_ne_zero (ovf : Overflow a b) : a.toInt ≠ 0 := by
  intro zero
  have outside := ovf.outside
  rw [zero, Int.zero_mul] at outside
  exact absurd outside (by decide)

lemma left_ne_one (ovf : Overflow a b) : a.toInt ≠ 1 := by
  intro one
  have outside := ovf.outside
  rw [one, Int.one_mul, int32?_eq_none_iff] at outside
  have low : -2147483648 ≤ b.toInt := b.minValue_le_toInt
  have high : b.toInt ≤ 2147483647 := b.toInt_le
  omega

end Overflow

/-- An integer is filled with a number only if it has its value. -/
lemma ofInt_isFilledWith {a : Int32} {num : Double} (oth : (a.toInt : Rat) ≠ num.value) :
    (Expr.ofInt a).isFilledWith num = false := by
  by_contra filled
  rw [Bool.not_eq_false] at filled
  have equal : (Floating.ofInt a.toInt : Double).equal num := filled
  exact oth ((Floating.value_ofInt_double a).symm.trans (Floating.value_eq_of_equal equal))

namespace Overflow

variable {a b : Int32}

section

variable (ovf : Overflow a b)

include ovf

lemma isZero_left : (Expr.ofInt a).isZero = false := by
  refine ofInt_isFilledWith ?_
  rw [Floating.value_zero_double]
  exact_mod_cast ovf.left_ne_zero

lemma isOne_left : (Expr.ofInt a).isOne = false := by
  refine ofInt_isFilledWith ?_
  rw [Floating.value_unit_double]
  exact_mod_cast ovf.left_ne_one

lemma isMinusOne_left : (Expr.ofInt a).isMinusOne = false := by
  have oth : (a.toInt : Rat) ≠ (Floating.unit true : Double).value := by
    rw [Floating.value_minusUnit_double]
    exact_mod_cast ovf.left
  exact ofInt_isFilledWith oth

/-- No rule applies to an integer, or to a product of two that is out of range. -/
lemma settle_times :
    settle Rule.all (times (.ofInt a) (.ofInt b)) = (times (.ofInt a) (.ofInt b), []) := by
  have folded : (times (.ofInt a) (.ofInt b)).fold? = none := by
    simp [Expr.fold?, Expr.literalValue?, times, Expr.ofInt, Expr.ofLiteral, Expr.literal?,
      Literal.binary?, Literal.onInts?, ovf.outside]
  have same : (times (.ofInt a) (.ofInt b)).identity? = none := by
    simp only [Expr.identity?, times, Expr.identityCandidates, Expr.binaryCandidates,
      ovf.isZero_left, ovf.symm.isZero_left, ovf.isOne_left,
      ovf.symm.isOne_left, ovf.isMinusOne_left, ovf.symm.isMinusOne_left]
    rfl
  simp only [settle, Rule.all, Rule.apply, Rule.candidate?, folded, same]
  rfl

end

end Overflow

lemma step_times (rules : Rules) (left right : Expr) :
    rules.step (times left right) = (rules.settle (times (rules.step left) (rules.step right))).1 :=
  step_eq rules (times left right)

lemma step_ofInt (a : Int32) : step Rule.all (.ofInt a) = .ofInt a := rfl

lemma Overflow.step_times {a b : Int32} (ovf : Overflow a b) :
    step Rule.all (times (.ofInt a) (.ofInt b)) = times (.ofInt a) (.ofInt b) := by
  rw [Rules.step_times, step_ofInt, step_ofInt, ovf.settle_times]

section Cycle

variable {a b c : Int32} (ab : Overflow a b) (ca : Overflow c a)
include ab ca

omit ab in
lemma identity?_eq_none : (product a b c).identity? = none ∧ (turned a b c).identity? = none := by
  simp only [Expr.identity?, product, turned, times, Expr.identityCandidates,
    Expr.binaryCandidates, ca.isZero_left, ca.isOne_left, ca.isMinusOne_left]
  exact ⟨rfl, rfl⟩

/-- A product of three integers is turned: its literal factor goes to the front. -/
lemma step_product : step Rule.all (product a b c) = turned a b c := by
  rw [product, Rules.step_times, step_ofInt, ab.step_times]
  change (settle Rule.all (product a b c)).1 = _
  simp only [settle, Rule.all, Rule.apply, Rule.candidate?, identity?_eq_none ca]
  rfl

/-- A turned product is nested to the left again. -/
lemma step_turned : step Rule.all (turned a b c) = product c a b := by
  rw [turned, Rules.step_times, step_ofInt, ab.step_times]
  change (settle Rule.all (turned a b c)).1 = _
  simp only [settle, Rule.all, Rule.apply, Rule.candidate?, identity?_eq_none ca]
  rfl

/-- Two passes turn the factors by one place. -/
lemma two_steps_product : (step Rule.all)^[2] (product a b c) = product c a b := by
  change step Rule.all (step Rule.all (product a b c)) = _
  rw [step_product ab ca, step_turned ab ca]

variable (bc : Overflow b c)
include bc

/-- A product of three integers comes back after six passes. -/
lemma product_cycles : (step Rule.all)^[6] (product a b c) = product a b c := by
  change (step Rule.all)^[2] ((step Rule.all)^[2] ((step Rule.all)^[2] (product a b c))) = _
  rw [two_steps_product ab ca, two_steps_product ca bc, two_steps_product bc ab]

/-- The limit is four passes after a multiple of six, so the factors are turned by two places. -/
lemma simplify_product : (simplify Rule.all (product a b c)).result = product b c a := by
  have round : Function.IsPeriodicPt (step Rule.all) 6 (product a b c) := product_cycles ab ca bc
  rw [simplify_result, show passLimit = 4 + 6 * 10 from rfl, Function.iterate_add_apply,
    (round.mul_const 10).eq]
  change (step Rule.all)^[2] ((step Rule.all)^[2] (product a b c)) = _
  rw [two_steps_product ab ca, two_steps_product ca bc]

/-- Simplifying such a product is idempotent only if all three factors are equal. -/
lemma idempotentAt_product_iff : IdempotentAt Rule.all (product a b c) ↔ a = b ∧ b = c := by
  rw [IdempotentAt, simplify_product ab ca bc, simplify_product bc ab ca]
  simp only [product, times, Expr.ofInt, Expr.ofLiteral, Expr.binary.injEq, Expr.literal.injEq,
    Literal.int.injEq, true_and, and_true, Literal.kind]
  constructor
  · rintro ⟨⟨rfl, rfl⟩, -⟩
    exact ⟨rfl, rfl⟩
  · rintro ⟨rfl, rfl⟩
    exact ⟨⟨rfl, rfl⟩, rfl⟩

end Cycle

lemma infer_product (site : Site) (a b c : Int32) :
    (product a b c).infer site = .ok (product a b c) := rfl

/-! ## Simplification with every rule -/

/-- When simplifying with every rule is idempotent at a tree, as to the tree it gives and as to the
change it reports, and when it warns that it was cut off. Without a warning a second run changes
nothing. But it is not idempotent at every tree that inference accepts: not at a sum of too many
variables, and not at a product of three integers of which no two have a product in range. -/
theorem simplify_simplify_iff (e : Expr) :
    ((IdempotentAt Rule.all e ↔
          minimalPeriod (step Rule.all) (simplify Rule.all e).result ∣ passLimit)
        ∧ ((simplify Rule.all (simplify Rule.all e).result).changed = false ↔
          ∃ passes ≤ passLimit, IsNormal Rule.all ((step Rule.all)^[passes] e))
        ∧ (Event.noFixedPoint passLimit (simplify Rule.all e).result.text
            ∈ (simplify Rule.all e).events ↔
          ∀ passes < passLimit, ¬IsNormal Rule.all ((step Rule.all)^[passes] e)))
    ∧ (∀ (site : Site) (x : String) (names : List String),
        (∀ name ∈ x :: names, site.symbols.lookup name = some Ty.float) →
        List.IsChain (· ≠ ·) (x :: names) →
        (rightSum x names).infer site = .ok (rightSum x names)
          ∧ (IdempotentAt Rule.all (rightSum x names) ↔ (x :: names).length ≤ passLimit + 2))
    ∧ ∀ (site : Site) (a b c : Int32), Overflow a b → Overflow b c → Overflow c a →
        (product a b c).infer site = .ok (product a b c)
          ∧ (IdempotentAt Rule.all (product a b c) ↔ a = b ∧ b = c) := by
  refine ⟨⟨?_, ?_, ?_⟩, ?_, ?_⟩
  · exact idempotentAt_iff Rule.all e
  · exact simplify_simplify_changed_iff Rule.all e
  · exact noFixedPoint_mem_simplify_iff Rule.all e
  · intro site x names floats neighbours
    exact ⟨infer_rightSum floats, idempotentAt_rightSum_iff neighbours⟩
  · intro site a b c ab bc ca
    exact ⟨infer_product site a b c, idempotentAt_product_iff ab ca bc⟩

/-- Where `x` and `y` are variables of type `float`. -/
def siteOfTwo : Site :=
  ⟨((SymbolTable.empty.declare "x" Ty.float).2.declare "y" Ty.float).2, none⟩

/-- The sum `x + (y + (x + ...))` of sixty-seven variables and the product `65536 * 65537 * 65538`
are accepted by inference, and simplifying one of them a second time gives another tree. -/
theorem not_idempotentAt_sum_nor_product :
    let sum := rightSum "x" (List.replicate 33 ["y", "x"]).flatten
    let triple := product 65536 65537 65538
    (sum.infer siteOfTwo = .ok sum ∧ ¬IdempotentAt Rule.all sum)
      ∧ triple.infer siteOfTwo = .ok triple ∧ ¬IdempotentAt Rule.all triple := by
  intro sum triple
  obtain ⟨-, sums, products⟩ := simplify_simplify_iff triple
  constructor
  · have floats : ∀ name ∈ "x" :: (List.replicate 33 ["y", "x"]).flatten,
        siteOfTwo.symbols.lookup name = some Ty.float := by
      intro name mem
      obtain rfl | rfl : name = "x" ∨ name = "y" := by
        simp at mem
        tauto
      · rfl
      · rfl
    obtain ⟨accepted, idempotent⟩ := sums siteOfTwo "x" _ floats (by decide +kernel)
    exact ⟨accepted, fun again => absurd (idempotent.mp again) (by decide)⟩
  · obtain ⟨accepted, idempotent⟩ := products siteOfTwo 65536 65537 65538
      ⟨by decide, by decide, by decide⟩ ⟨by decide, by decide, by decide⟩
      ⟨by decide, by decide, by decide⟩
    exact ⟨accepted, fun again => absurd (idempotent.mp again).1 (by decide)⟩

end ShaderAlgebra.Rules
