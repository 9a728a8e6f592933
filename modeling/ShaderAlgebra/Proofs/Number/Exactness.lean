import Mathlib.Algebra.Order.Field.Power
import Mathlib.Data.Rat.Floor
import Mathlib.Tactic.Linarith
import Mathlib.Tactic.Positivity
import Mathlib.Tactic.Ring
import ShaderAlgebra.Number.Arithmetic

/-!
# Numbers that rounding leaves alone

Rounding is exact on what the format can hold: a rational that is a count of units, with no more
bits in the count than the significand has and the unit and the size within range, is the value of
the number it rounds to (`value_ofMagnitude`). So a binary32 number has the same value in binary64
(`value_convert_double`), and a 32-bit integer is held exactly there (`value_ofInt_double`).

Equal numbers have equal values (`value_eq_of_equal`), which is all that a comparison of literals
needs.
-/

namespace ShaderAlgebra.Floating

variable {f : Format} {x y : Floating f} {q : Rat} {neg : Bool}

/-! ## Equal numbers -/

private lemma fields_eq_of_steps_eq
    (steps : x.exponent.toNat * twoTo f.fractionWidth + x.fraction.toNat
      = y.exponent.toNat * twoTo f.fractionWidth + y.fraction.toNat) :
    x.exponent = y.exponent ∧ x.fraction = y.fraction := by
  have hx : x.fraction.toNat < twoTo f.fractionWidth := x.fraction.isLt
  have hy : y.fraction.toNat < twoTo f.fractionWidth := y.fraction.isLt
  have fractions : x.fraction.toNat = y.fraction.toNat := by
    have := congrArg (· % twoTo f.fractionWidth) steps
    simpa [Nat.mod_eq_of_lt hx, Nat.mod_eq_of_lt hy] using this
  have exponents : x.exponent.toNat = y.exponent.toNat := by
    rw [fractions] at steps
    exact Nat.eq_of_mul_eq_mul_right (by omega) (Nat.add_right_cancel steps)
  exact ⟨BitVec.eq_of_toNat_eq exponents, BitVec.eq_of_toNat_eq fractions⟩

/-- Numbers at the same place in the order are the same, but for the sign of zero. -/
lemma eq_or_zero_of_rank_eq (ranks : x.rank = y.rank) : x = y ∨ (x.isZero ∧ y.isZero) := by
  obtain ⟨sx, ex, fx⟩ := x
  obtain ⟨sy, ey, fy⟩ := y
  by_cases signs : sx = sy
  · subst signs
    have steps : ex.toNat * twoTo f.fractionWidth + fx.toNat
        = ey.toNat * twoTo f.fractionWidth + fy.toNat := by
      cases sx <;> simp only [rank, Bool.false_eq_true, if_false, if_true] at ranks <;> omega
    obtain ⟨he, hf⟩ := fields_eq_of_steps_eq (x := ⟨sx, ex, fx⟩) (y := ⟨sx, ey, fy⟩) steps
    exact .inl (by simp_all)
  · right
    have nothing : ex.toNat * twoTo f.fractionWidth + fx.toNat = 0
        ∧ ey.toNat * twoTo f.fractionWidth + fy.toNat = 0 := by
      generalize hx : ex.toNat * twoTo f.fractionWidth + fx.toNat = m at *
      generalize hy : ey.toNat * twoTo f.fractionWidth + fy.toNat = n at *
      cases sx <;> cases sy
      · exact absurd rfl signs
      · simp only [rank, hx, hy, Bool.false_eq_true, if_false, if_true] at ranks
        omega
      · simp only [rank, hx, hy, Bool.false_eq_true, if_false, if_true] at ranks
        omega
      · exact absurd rfl signs
    have pos : 0 < twoTo f.fractionWidth := Nat.two_pow_pos _
    have exponents : ex.toNat = 0 ∧ ey.toNat = 0 := by
      constructor
      · exact (Nat.mul_eq_zero.mp (Nat.add_eq_zero_iff.mp nothing.1).1).resolve_right (by omega)
      · exact (Nat.mul_eq_zero.mp (Nat.add_eq_zero_iff.mp nothing.2).1).resolve_right (by omega)
    have fractions : fx.toNat = 0 ∧ fy.toNat = 0 := by
      constructor
      · exact (Nat.add_eq_zero_iff.mp nothing.1).2
      · exact (Nat.add_eq_zero_iff.mp nothing.2).2
    simp [isZero, exponents, fractions]

lemma value_of_isZero (zero : x.isZero) : x.value = 0 := by
  simp only [isZero, Bool.and_eq_true, beq_iff_eq] at zero
  simp [value, magnitude, significand, zero.1, zero.2]

/-- Equal numbers have the same value. -/
lemma value_eq_of_equal (equal : x.equal y) : x.value = y.value := by
  simp only [Floating.equal, Bool.and_eq_true, beq_iff_eq] at equal
  rcases eq_or_zero_of_rank_eq equal.2 with rfl | ⟨hx, hy⟩
  · rfl
  · rw [value_of_isZero hx, value_of_isZero hy]

/-! ## Logarithms and nearest integers -/

private lemma two_zpow_natCast (n : Nat) : (2 : Rat) ^ (n : Int) = ((2 ^ n : Nat) : Rat) := by
  simp

/-- The bit lengths of the two parts of a fraction bound its logarithm from both sides. -/
private lemma log2_fraction_bounds {n d : Nat} (hn : n ≠ 0) (hd : d ≠ 0) :
    (2 : Rat) ^ ((n.log2 : Int) - d.log2 - 1) ≤ (n : Rat) / d
      ∧ (n : Rat) / d < (2 : Rat) ^ ((n.log2 : Int) - d.log2 + 1) := by
  have bounds (k : Nat) (hk : k ≠ 0) :
      (2 : Rat) ^ (k.log2 : Int) ≤ k ∧ (k : Rat) < 2 ^ ((k.log2 : Int) + 1) := by
    constructor
    · rw [two_zpow_natCast]
      exact_mod_cast Nat.log2_self_le hk
    · rw [show (k.log2 : Int) + 1 = ((k.log2 + 1 : Nat) : Int) by simp, two_zpow_natCast]
      exact_mod_cast Nat.lt_log2_self
  obtain ⟨numLow, numHigh⟩ := bounds n hn
  obtain ⟨denLow, denHigh⟩ := bounds d hd
  have denominator : (0 : Rat) < d := Nat.cast_pos.mpr (Nat.pos_of_ne_zero hd)
  constructor
  · rw [le_div_iff₀ denominator]
    calc (2 : Rat) ^ ((n.log2 : Int) - d.log2 - 1) * d
        ≤ 2 ^ ((n.log2 : Int) - d.log2 - 1) * 2 ^ ((d.log2 : Int) + 1) := by gcongr
      _ = 2 ^ (n.log2 : Int) := by
          rw [← zpow_add₀ (by norm_num)]
          congr 1
          ring
      _ ≤ (n : Rat) := numLow
  · rw [div_lt_iff₀ denominator]
    calc (n : Rat) < 2 ^ ((n.log2 : Int) + 1) := numHigh
      _ = 2 ^ ((n.log2 : Int) - d.log2 + 1) * 2 ^ (d.log2 : Int) := by
          rw [← zpow_add₀ (by norm_num)]
          congr 1
          ring
      _ ≤ 2 ^ ((n.log2 : Int) - d.log2 + 1) * d := by gcongr

/-- The power of two at or below a positive rational. -/
lemma floorLog2_spec (pos : 0 < q) :
    (2 : Rat) ^ floorLog2 q ≤ q ∧ q < (2 : Rat) ^ (floorLog2 q + 1) := by
  have numerator : 0 < q.num := Rat.num_pos.mpr pos
  have quot : (q.num.natAbs : Rat) / (q.den : Rat) = q := by
    rw [Nat.cast_natAbs, abs_of_pos numerator, Rat.num_div_den]
  have bounds := log2_fraction_bounds (Int.natAbs_ne_zero.mpr numerator.ne') q.den_nz
  rw [quot] at bounds
  unfold floorLog2
  dsimp only
  split
  · next below => exact ⟨bounds.1, by simpa using below⟩
  · next above => exact ⟨not_lt.mp above, bounds.2⟩

/-- A natural number is its own nearest integer. -/
lemma nearestEven_natCast (n : Nat) : nearestEven (n : Rat) = n := by
  have floor : (n : Rat).floor.toNat = n := by
    rw [← Int.cast_natCast n, Rat.floor_intCast, Int.toNat_natCast]
  unfold nearestEven
  simp [floor]

/-! ## Rounding what the format holds -/

/-- The rational is a count of units, where the count fits the significand, the unit is not below
the least one, and the whole is below the infinity. -/
def Holds (f : Format) (q : Rat) : Prop :=
  ∃ (count : Nat) (unit : Int),
    q = (count : Rat) * (2 : Rat) ^ unit ∧ count < twoTo (f.fractionWidth + 1)
      ∧ f.leastUnit ≤ unit
      ∧ q < (2 : Rat) ^ (f.leastUnit + f.fractionWidth + f.topExponent - 1)

/-- A count that needs no carry is assembled into a number of that magnitude. -/
lemma magnitude_assemble {cnt : Nat} {unit : Int} (fits : cnt < twoTo (f.fractionWidth + 1))
    (above : f.leastUnit ≤ unit) (normal : cnt < twoTo f.fractionWidth → unit = f.leastUnit)
    (range : (unit - f.leastUnit).toNat + 1 < f.topExponent) :
    (assemble neg cnt unit : Floating f).magnitude = (cnt : Rat) * (2 : Rat) ^ unit := by
  have doubled : twoTo (f.fractionWidth + 1) = 2 * twoTo f.fractionWidth := Nat.pow_succ'
  unfold assemble
  split
  · next small =>
    rw [normal small]
    have kept : cnt % 2 ^ f.fractionWidth = cnt := Nat.mod_eq_of_lt small
    simp [magnitude, significand, unitExponent, kept]
  · next large =>
    have noCarry : (cnt == twoTo (f.fractionWidth + 1)) = false := by simp; omega
    have top : f.topExponent < 2 ^ f.exponentWidth := Nat.sub_lt (Nat.two_pow_pos _) Nat.one_pos
    have field : ((unit - f.leastUnit).toNat + 1) % 2 ^ f.exponentWidth
        = (unit - f.leastUnit).toNat + 1 := Nat.mod_eq_of_lt (by omega)
    have rest : (cnt - twoTo f.fractionWidth) % 2 ^ f.fractionWidth = cnt - twoTo f.fractionWidth :=
      Nat.mod_eq_of_lt (show _ < twoTo f.fractionWidth by omega)
    have whole : twoTo f.fractionWidth + (cnt - twoTo f.fractionWidth) = cnt := by omega
    have exp : f.leastUnit + ((unit - f.leastUnit).toNat : Int) = unit := by omega
    simp only [noCarry, Bool.false_eq_true, if_false, if_neg (not_le.mpr range)]
    simp only [magnitude, significand, unitExponent, BitVec.toNat_ofNat, field, rest,
      Nat.add_one_ne_zero, if_false, whole, Nat.add_sub_cancel, exp]

/-- A rational that the format holds is the magnitude of the number it rounds to. -/
lemma magnitude_ofMagnitude (wide : 1 < f.topExponent) (nonneg : 0 ≤ q) (held : Holds f q) :
    (ofMagnitude neg q : Floating f).magnitude = q := by
  obtain ⟨cnt, unit, hq, fits, above, range⟩ := held
  unfold ofMagnitude
  split
  · next none => simp [magnitude, significand, zero, none]
  · next some =>
    obtain ⟨low, high⟩ := floorLog2_spec (lt_of_le_of_ne nonneg (Ne.symm some))
    generalize floorLog2 q = log at low high
    generalize chosen_eq : max (log - (f.fractionWidth : Int)) f.leastUnit = chosen
    have two : (1 : Rat) < 2 := by norm_num
    have below : q < (2 : Rat) ^ ((f.fractionWidth : Int) + 1 + unit) := by
      rw [hq, zpow_add₀ two_ne_zero]
      gcongr
      rw [show (f.fractionWidth : Int) + 1 = ((f.fractionWidth + 1 : Nat) : Int) by simp,
        two_zpow_natCast]
      exact_mod_cast fits
    have logBelow : log < f.fractionWidth + 1 + unit :=
      (zpow_lt_zpow_iff_right₀ two).mp (low.trans_lt below)
    have logRange : log < f.leastUnit + f.fractionWidth + f.topExponent - 1 :=
      (zpow_lt_zpow_iff_right₀ two).mp (low.trans_lt range)
    -- The unit that rounding chooses is at most the given one, so the quotient is a whole number.
    have chosenLe : chosen ≤ unit := by omega
    obtain ⟨shift, shifted⟩ := Int.le.dest chosenLe
    have whole : q / (2 : Rat) ^ chosen = ((cnt * 2 ^ shift : Nat) : Rat) := by
      rw [hq, div_eq_iff (by positivity), ← shifted, zpow_add₀ two_ne_zero, zpow_natCast]
      push_cast
      ring
    have exact : ((cnt * 2 ^ shift : Nat) : Rat) * (2 : Rat) ^ chosen = q := by
      rw [← whole, div_mul_cancel₀ _ (by positivity)]
    have fitsToo : cnt * 2 ^ shift < twoTo (f.fractionWidth + 1) := by
      have : ((cnt * 2 ^ shift : Nat) : Rat) < (2 : Rat) ^ ((f.fractionWidth + 1 : Nat) : Int) := by
        rw [← whole, div_lt_iff₀ (by positivity), ← zpow_add₀ two_ne_zero]
        exact high.trans_le (zpow_le_zpow_right₀ two.le (by push_cast; omega))
      exact_mod_cast this
    have subnormal : cnt * 2 ^ shift < twoTo f.fractionWidth → chosen = f.leastUnit := by
      intro small
      by_contra normal
      have : (2 : Rat) ^ ((f.fractionWidth : Nat) : Int) ≤ ((cnt * 2 ^ shift : Nat) : Rat) := by
        rw [← whole, le_div_iff₀ (by positivity), ← zpow_add₀ two_ne_zero]
        exact (zpow_le_zpow_right₀ two.le (by omega)).trans low
      exact absurd small (not_lt.mpr (by exact_mod_cast this))
    dsimp only
    rw [whole, nearestEven_natCast, magnitude_assemble fitsToo (by omega) subnormal (by omega)]
    exact exact

private lemma negative_assemble (neg : Bool) (cnt : Nat) (unit : Int) :
    (assemble neg cnt unit : Floating f).negative = neg := by
  unfold assemble
  split
  · rfl
  · dsimp only
    split_ifs <;> rfl

private lemma negative_ofMagnitude (neg : Bool) (q : Rat) :
    (ofMagnitude neg q : Floating f).negative = neg := by
  unfold ofMagnitude
  split
  · rfl
  · exact negative_assemble ..

/-- A rational that the format holds is the value of the number it rounds to, up to the sign. -/
lemma value_ofMagnitude (wide : 1 < f.topExponent) (nonneg : 0 ≤ q) (held : Holds f q) :
    (ofMagnitude neg q : Floating f).value = if neg then -q else q := by
  rw [value, negative_ofMagnitude, magnitude_ofMagnitude wide nonneg held]

/-! ## Literals in binary64 -/

private lemma double_wide : 1 < Format.double.topExponent := by decide

private lemma double_range :
    Format.double.leastUnit + Format.double.fractionWidth + Format.double.topExponent - 1
      = 1024 := by
  decide

lemma magnitude_nonneg (x : Floating f) : 0 ≤ x.magnitude := by
  unfold magnitude
  positivity

/-- Binary64 holds the magnitude of every finite binary32 number. -/
lemma holds_double_magnitude (x : Single) (finite : x.isFinite) :
    Holds Format.double x.magnitude := by
  have exp : x.exponent.toNat < 256 := x.exponent.isLt
  have frac : x.fraction.toNat < 8388608 := x.fraction.isLt
  have top : x.exponent.toNat ≠ 255 := by
    simpa [isFinite, show Format.single.topExponent = 255 by decide] using finite
  have cnt : x.significand < 16777216 := by
    unfold significand
    split
    · omega
    · show twoTo 23 + _ < _
      rw [show twoTo 23 = 8388608 from rfl]
      omega
  have least : Format.single.leastUnit = -149 := by decide
  have unitLow : -149 ≤ x.unitExponent := by
    rw [unitExponent, least]
    omega
  have unitHigh : x.unitExponent ≤ 104 := by
    rw [unitExponent, least]
    omega
  refine ⟨x.significand, x.unitExponent, rfl, ?_, ?_, ?_⟩
  · exact cnt.trans (by decide)
  · exact le_trans (by decide) unitLow
  · rw [double_range]
    calc x.magnitude < (2 : Rat) ^ (24 : Int) * (2 : Rat) ^ x.unitExponent := by
          unfold magnitude
          gcongr
          exact_mod_cast cnt
      _ = (2 : Rat) ^ (24 + x.unitExponent) := (zpow_add₀ two_ne_zero _ _).symm
      _ ≤ (2 : Rat) ^ (1024 : Int) := zpow_le_zpow_right₀ (by norm_num) (by omega)

lemma number_of_isFinite (finite : x.isFinite) : x.isNaN = false ∧ x.isInfinite = false := by
  simp_all [isFinite, isNaN, isInfinite]

/-- A finite binary32 number keeps its value in binary64. -/
lemma value_convert_double (x : Single) (finite : x.isFinite) :
    (x.convert Format.double).value = x.value := by
  simp only [convert, number_of_isFinite finite, Bool.false_eq_true, if_false]
  exact value_ofMagnitude double_wide x.magnitude_nonneg (holds_double_magnitude x finite)

/-- A 32-bit integer keeps its value in binary64. -/
lemma value_ofInt_double (i : Int32) : (ofInt i.toInt : Double).value = (i.toInt : Rat) := by
  have low : -2147483648 ≤ i.toInt := i.minValue_le_toInt
  have high : i.toInt ≤ 2147483647 := i.toInt_le
  have held : Holds Format.double ((i.toInt.natAbs : Nat) : Rat) := by
    refine ⟨i.toInt.natAbs, 0, by simp, ?_, by decide, ?_⟩
    · exact lt_of_le_of_lt (show i.toInt.natAbs ≤ 2147483648 by omega) (by decide)
    · rw [double_range]
      calc ((i.toInt.natAbs : Nat) : Rat) < (2 : Rat) ^ (32 : Int) := by
            exact_mod_cast (by omega : i.toInt.natAbs < 4294967296)
        _ ≤ (2 : Rat) ^ (1024 : Int) := zpow_le_zpow_right₀ (by norm_num) (by norm_num)
  rw [ofInt, ofRat]
  by_cases neg : i.toInt < 0
  · have below : ((i.toInt : Int) : Rat) < 0 := by exact_mod_cast neg
    have absolute : (i.toInt : Rat).abs = ((i.toInt.natAbs : Nat) : Rat) := by
      rw [Rat.abs_of_nonpos below.le, Nat.cast_natAbs, abs_of_neg neg, Int.cast_neg]
    rw [absolute, value_ofMagnitude double_wide (by positivity) held, ← absolute,
      Rat.abs_of_nonpos below.le]
    simp [below]
  · have above : 0 ≤ ((i.toInt : Int) : Rat) := by exact_mod_cast not_lt.mp neg
    have absolute : (i.toInt : Rat).abs = ((i.toInt.natAbs : Nat) : Rat) := by
      rw [Rat.abs_of_nonneg above, Nat.cast_natAbs, abs_of_nonneg (not_lt.mp neg)]
    rw [absolute, value_ofMagnitude double_wide (by positivity) held, ← absolute,
      Rat.abs_of_nonneg above]
    simp [not_lt.mpr above]

/-! ## Finite numbers -/

/-- A number that equals a finite one is finite. -/
lemma isFinite_of_equal {x y : Double} (finite : y.isFinite) (equal : x.equal y) : x.isFinite := by
  simp only [Floating.equal, Bool.and_eq_true, beq_iff_eq] at equal
  rcases eq_or_zero_of_rank_eq equal.2 with rfl | ⟨zero, -⟩
  · exact finite
  · simp only [isZero, Bool.and_eq_true, beq_iff_eq] at zero
    simp only [isFinite, zero.1]
    decide

/-- A number that is finite in binary64 is finite. -/
lemma isFinite_of_convert {x : Single} (finite : (x.convert Format.double).isFinite) :
    x.isFinite := by
  by_contra other
  have top : x.exponent.toNat = Format.single.topExponent := by simpa [isFinite] using other
  unfold convert at finite
  split at finite
  · cases finite
  · next notNaN =>
    have infinite : x.isInfinite := by simp_all [isNaN, isInfinite]
    rw [if_pos infinite] at finite
    cases finite

/-! ## Zero and one -/

lemma value_zero_double : (zero false : Double).value = 0 := by
  simp [value, magnitude, zero, significand]

lemma isFinite_zero_double : (zero false : Double).isFinite := rfl

lemma unit_double (neg : Bool) : (unit neg : Double).isFinite
    ∧ (unit neg : Double).value = if neg then -1 else 1 := by
  revert neg
  decide +kernel

lemma isFinite_unit_double (neg : Bool) : (unit neg : Double).isFinite := (unit_double neg).1

lemma value_unit_double : (unit false : Double).value = 1 := (unit_double false).2

lemma value_minusUnit_double : (unit true : Double).value = -1 := (unit_double true).2

end ShaderAlgebra.Floating
