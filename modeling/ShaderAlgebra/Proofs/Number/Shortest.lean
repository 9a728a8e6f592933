import Mathlib.Tactic.FieldSimp
import Mathlib.Tactic.NormNum
import ShaderAlgebra.Number.Decimal
import ShaderAlgebra.Proofs.Number.Exactness

/-!
# Decimals that read back

The digits chosen for a number read back as that number. Every rational within the margins of `x`
rounds to `x` (`ofMagnitude_of_reaches`): it either counts in the units of `x`, or lies just below a
power of two, where the units are half as large and the count carries. Some grid of the search has
a neighbour within the margins (`exists_neighbour`), since the finest grid is narrower than either
margin, so the search never comes back empty-handed.
-/

namespace ShaderAlgebra.Floating

variable {f : Format} {x : Floating f} {q : Rat}

/-! ## Reading a rational -/

/-- The rational is no further from the number than the margin on its side. -/
def Reaches (x : Floating f) (q : Rat) : Prop :=
  (q ≤ x.magnitude ∧ within x (x.magnitude - q) (marginBelow x) = true)
    ∨ (x.magnitude ≤ q ∧ within x (q - x.magnitude) (marginAbove x) = true)

lemma within_eq_true {dist margin : Rat} (ins : within x dist margin) :
    dist ≤ margin ∧ (dist = margin → x.significand % 2 = 0) := by
  unfold within at ins
  split at ins
  · next even => exact ⟨by simpa using ins, fun _ => even⟩
  · have strict : dist < margin := by simpa using ins
    exact ⟨strict.le, fun same => absurd same strict.ne⟩

lemma within_of_lt {dist margin : Rat} (ins : dist < margin) : within x dist margin := by
  unfold within
  split
  · exact decide_eq_true ins.le
  · exact decide_eq_true ins

/-- The whole part of a non-negative rational, as a natural number. -/
lemma exists_floor (nonneg : 0 ≤ q) :
    ∃ whole : Nat, q.floor = whole ∧ (whole : Rat) ≤ q ∧ q < whole + 1 := by
  obtain ⟨whole, floor⟩ := Int.eq_ofNat_of_zero_le (Rat.le_floor_iff.mpr (by simpa using nonneg))
  have low := Rat.floor_le q
  have high := Rat.lt_floor_add_one q
  rw [floor] at low high
  exact ⟨whole, floor, by exact_mod_cast low, by exact_mod_cast high⟩

/-- A whole number less than half away is the nearest, and at exactly half if it is even. -/
lemma nearestEven_eq {n : Nat} (low : (n : Rat) - 1 / 2 ≤ q) (high : q ≤ n + 1 / 2)
    (nonneg : 0 ≤ q) (ties : q = n - 1 / 2 ∨ q = n + 1 / 2 → n % 2 = 0) : nearestEven q = n := by
  obtain ⟨below, floor, above, under⟩ := exists_floor nonneg
  -- The floor is the number itself or its predecessor.
  have upper : below ≤ n := by
    by_contra more
    have : (n : Rat) + 1 ≤ below := by exact_mod_cast not_le.mp more
    linarith
  have lower : n ≤ below + 1 := by
    by_contra less
    have : (below : Rat) + 2 ≤ n := by exact_mod_cast not_le.mp less
    linarith
  have floored : q.floor.toNat = below := by rw [floor]; rfl
  unfold nearestEven
  simp only [floored]
  rcases Nat.eq_or_lt_of_le upper with rfl | less
  · split_ifs with near far even
    · rfl
    · exact absurd high (by linarith)
    · rfl
    · have half : q = below + 1 / 2 := by linarith
      exact absurd (ties (.inr half)) even
  · obtain rfl : n = below + 1 := by omega
    push_cast at low high ties
    split_ifs with near far even
    · exact absurd low (by linarith)
    · rfl
    · have half : q = below + 1 - 1 / 2 := by linarith
      have := ties (.inl half)
      omega
    · rfl

/-- The unit that rounding chooses for a rational of the binade of that unit. -/
lemma chosenUnit_eq {unit : Int} (pos : 0 < q) (least : f.leastUnit ≤ unit)
    (low : unit = f.leastUnit ∨ (2 : Rat) ^ ((f.fractionWidth : Int) + unit) ≤ q)
    (high : q < (2 : Rat) ^ ((f.fractionWidth : Int) + 1 + unit)) :
    max (floorLog2 q - (f.fractionWidth : Int)) f.leastUnit = unit := by
  obtain ⟨logLow, logHigh⟩ := floorLog2_spec pos
  have two : (1 : Rat) < 2 := by norm_num
  have below : floorLog2 q < f.fractionWidth + 1 + unit :=
    (zpow_lt_zpow_iff_right₀ two).mp (logLow.trans_lt high)
  rcases low with same | low
  · omega
  · have : (f.fractionWidth : Int) + unit < floorLog2 q + 1 :=
      (zpow_lt_zpow_iff_right₀ two).mp (low.trans_lt logHigh)
    omega

lemma twoTo_succ (n : Nat) : twoTo (n + 1) = 2 * twoTo n := Nat.pow_succ'

lemma significand_lt (x : Floating f) : x.significand < twoTo (f.fractionWidth + 1) := by
  have frac : x.fraction.toNat < twoTo f.fractionWidth := x.fraction.isLt
  have doubled := twoTo_succ f.fractionWidth
  unfold significand
  split <;> omega

lemma significand_pos (nz : x.isZero = false) : 0 < x.significand := by
  have pos : 0 < twoTo f.fractionWidth := Nat.two_pow_pos _
  unfold significand
  split
  · next subnormal =>
    have : x.fraction.toNat ≠ 0 := by simpa [isZero, subnormal] using nz
    omega
  · omega

lemma leastUnit_le_unitExponent (x : Floating f) : f.leastUnit ≤ x.unitExponent := by
  unfold unitExponent
  omega

lemma exponent_lt_top (finite : x.isFinite) : x.exponent.toNat < f.topExponent := by
  have under : x.exponent.toNat < twoTo f.exponentWidth := x.exponent.isLt
  have oth : x.exponent.toNat ≠ f.topExponent := by simpa [isFinite] using finite
  have : f.topExponent = twoTo f.exponentWidth - 1 := rfl
  omega

/-- A finite number is assembled from its own significand and unit. -/
lemma assemble_significand (finite : x.isFinite) :
    assemble x.negative x.significand x.unitExponent = x := by
  have top := exponent_lt_top finite
  obtain ⟨neg, exp, frac⟩ := x
  have fits : frac.toNat < twoTo f.fractionWidth := frac.isLt
  unfold assemble significand
  by_cases subnormal : exp.toNat = 0
  · have none : exp = 0 := BitVec.eq_of_toNat_eq (by simpa using subnormal)
    simp [none, fits]
  · have doubled := twoTo_succ f.fractionWidth
    have noCarry : (twoTo f.fractionWidth + frac.toNat == twoTo (f.fractionWidth + 1)) = false := by
      rw [beq_eq_false_iff_ne]
      omega
    have field : (unitExponent ⟨neg, exp, frac⟩ - f.leastUnit).toNat + 1 = exp.toNat := by
      simp only [unitExponent]
      omega
    simp only [if_neg subnormal, if_neg (Nat.not_lt.mpr (Nat.le_add_right _ _)), noCarry,
      Bool.false_eq_true, if_false, field, if_neg (Nat.not_le.mpr top), Nat.add_sub_cancel_left,
      BitVec.ofNat_toNat, BitVec.setWidth_eq]

/-- A power of two is also assembled from twice as many units of half the size, by the carry. -/
lemma assemble_carry (finite : x.isFinite) (power : x.fraction = 0) (inner : 1 < x.exponent.toNat) :
    assemble x.negative (twoTo (f.fractionWidth + 1)) (x.unitExponent - 1) = x := by
  have top := exponent_lt_top finite
  obtain ⟨neg, exp, frac⟩ := x
  obtain rfl : frac = 0 := power
  have doubled := twoTo_succ f.fractionWidth
  have field : (unitExponent ⟨neg, exp, 0⟩ - 1 - f.leastUnit).toNat + 2 = exp.toNat := by
    simp only [unitExponent] at inner ⊢
    omega
  unfold assemble
  simp only [if_neg (show ¬ twoTo (f.fractionWidth + 1) < twoTo f.fractionWidth by omega),
    beq_self_eq_true, if_true, field, if_neg (Nat.not_le.mpr top), BitVec.ofNat_toNat,
    BitVec.setWidth_eq]
  rfl

/-- What a rational within the margins is, counted in the units of the number: less than half a
unit away, or half a unit away if the significand is even. -/
lemma Reaches.near (reaches : x.Reaches q) : (x.significand - 1 / 2 : Rat) ≤ q / 2 ^ x.unitExponent
      ∧ q / 2 ^ x.unitExponent ≤ x.significand + 1 / 2
      ∧ (q / 2 ^ x.unitExponent = x.significand - 1 / 2
          ∨ q / 2 ^ x.unitExponent = x.significand + 1 / 2 → x.significand % 2 = 0) := by
  have unit : (0 : Rat) < 2 ^ x.unitExponent := by positivity
  have below : marginBelow x ≤ 2 ^ x.unitExponent / 2 := by
    unfold marginBelow
    split <;> linarith
  rw [le_div_iff₀ unit, div_le_iff₀ unit, div_eq_iff unit.ne', div_eq_iff unit.ne']
  rcases reaches with ⟨side, ins⟩ | ⟨side, ins⟩
  · obtain ⟨bound, ties⟩ := within_eq_true ins
    unfold magnitude at side bound ties
    refine ⟨by linarith, by linarith, ?_⟩
    rintro (tie | tie)
    · exact ties (by linarith)
    · exact absurd side (by linarith)
  · obtain ⟨bound, ties⟩ := within_eq_true ins
    unfold marginAbove at bound ties
    unfold magnitude at side bound ties
    refine ⟨by linarith, by linarith, ?_⟩
    rintro (tie | tie)
    · exact absurd side (by linarith)
    · exact ties (by linarith)

/-- A rational within the margins but below the binade of the number belongs to a power of two, and
counted in units of half the size it is no further than half of one from the full count. -/
lemma Reaches.below_binade (reaches : x.Reaches q) (notLeast : x.unitExponent ≠ f.leastUnit)
    (short : q < (2 : Rat) ^ ((f.fractionWidth : Int) + x.unitExponent)) :
    1 < x.exponent.toNat ∧ x.fraction = 0
      ∧ ((twoTo (f.fractionWidth + 1) : Nat) : Rat) - 1 / 2 ≤ q / 2 ^ (x.unitExponent - 1) := by
  have unit : (0 : Rat) < 2 ^ x.unitExponent := by positivity
  have width : ((twoTo f.fractionWidth : Nat) : Rat) = 2 ^ (f.fractionWidth : Int) := by
    simp [twoTo]
  rw [zpow_add₀ two_ne_zero, ← width] at short
  have inner : 1 < x.exponent.toNat := by
    unfold unitExponent at notLeast
    omega
  have normal : x.significand = twoTo f.fractionWidth + x.fraction.toNat := if_neg (by omega)
  have power : x.fraction.toNat = 0 := by
    by_contra some
    have more : twoTo f.fractionWidth + 1 ≤ x.significand := by omega
    have : ((twoTo f.fractionWidth : Nat) : Rat) + 1 ≤ x.significand := by exact_mod_cast more
    have low := reaches.near.1
    rw [← div_lt_iff₀ unit] at short
    linarith
  have noFraction : x.fraction = 0 := BitVec.eq_of_toNat_eq (by simpa using power)
  have least : x.magnitude = (twoTo f.fractionWidth : Nat) * 2 ^ x.unitExponent := by
    rw [magnitude, normal, power, Nat.add_zero]
  have margin : marginBelow x = 2 ^ x.unitExponent / 4 := by simp [marginBelow, noFraction, inner]
  have close : x.magnitude - q ≤ 2 ^ x.unitExponent / 4 := by
    rcases reaches with ⟨-, ins⟩ | ⟨side, -⟩
    · rw [← margin]
      exact (within_eq_true ins).1
    · exact absurd short (not_lt.mpr (least ▸ side))
  have half : (2 : Rat) ^ (x.unitExponent - 1) = 2 ^ x.unitExponent / 2 := by
    rw [zpow_sub_one₀ two_ne_zero, div_eq_mul_inv]
  have doubled : ((twoTo (f.fractionWidth + 1) : Nat) : Rat)
      = 2 * (twoTo f.fractionWidth : Nat) := by
    simp [twoTo, pow_succ']
  refine ⟨inner, noFraction, ?_⟩
  rw [half, le_div_iff₀ (by positivity), doubled]
  linarith

/-- Every rational within the margins of a number reads as that number. -/
lemma ofMagnitude_of_reaches (finite : x.isFinite) (nz : x.isZero = false)
    (reaches : x.Reaches q) : ofMagnitude x.negative q = x := by
  obtain ⟨low, high, ties⟩ := reaches.near
  have unit : (0 : Rat) < 2 ^ x.unitExponent := by positivity
  have cnt : (1 : Rat) ≤ x.significand := by exact_mod_cast significand_pos nz
  have pos : 0 < q := (div_pos_iff_of_pos_right unit).mp (by linarith)
  have counts : (x.significand : Rat) + 1 ≤ 2 ^ ((f.fractionWidth : Int) + 1) := by
    exact_mod_cast x.significand_lt
  have under : q < 2 ^ ((f.fractionWidth : Int) + 1 + x.unitExponent) := by
    rw [zpow_add₀ two_ne_zero, ← div_lt_iff₀ unit]
    linarith
  unfold ofMagnitude
  rw [if_neg pos.ne']
  dsimp only
  by_cases binade : x.unitExponent = f.leastUnit
      ∨ (2 : Rat) ^ ((f.fractionWidth : Int) + x.unitExponent) ≤ q
  · rw [chosenUnit_eq pos x.leastUnit_le_unitExponent binade under,
      nearestEven_eq low high (by positivity) ties, assemble_significand finite]
  · -- Just below a power of two the units are half as large, and the count carries.
    obtain ⟨notLeast, short⟩ := not_or.mp binade
    have above := lt_of_le_of_ne x.leastUnit_le_unitExponent (Ne.symm notLeast)
    obtain ⟨inner, power, near⟩ := reaches.below_binade notLeast (not_le.mp short)
    have halves : (0 : Rat) < 2 ^ (x.unitExponent - 1) := by positivity
    have width : ((twoTo (f.fractionWidth + 1) : Nat) : Rat)
        = 2 ^ ((f.fractionWidth : Int) + 1) := by
      exact_mod_cast rfl
    have full : q / 2 ^ (x.unitExponent - 1) < (twoTo (f.fractionWidth + 1) : Nat) := by
      rw [width, div_lt_iff₀ halves, ← zpow_add₀ two_ne_zero]
      convert not_le.mp short using 2
      ring
    have whole : (2 : Rat) ^ (f.fractionWidth : Int) ≤ q / 2 ^ (x.unitExponent - 1) := by
      have one : (1 : Rat) ≤ 2 ^ (f.fractionWidth : Int) := one_le_zpow₀ (by norm_num) (by omega)
      rw [width, zpow_add_one₀ two_ne_zero] at near
      linarith
    rw [chosenUnit_eq pos (by omega : f.leastUnit ≤ x.unitExponent - 1), nearestEven_eq near,
      assemble_carry finite power inner]
    · linarith
    · positivity
    · intro _
      exact Nat.mod_eq_zero_of_dvd (Dvd.intro_left (twoTo f.fractionWidth) rfl)
    · rw [zpow_add₀ two_ne_zero, ← le_div_iff₀ halves]
      exact .inr whole
    · rw [zpow_add₀ two_ne_zero, ← div_lt_iff₀ halves, ← width]
      exact full

/-! ## The search for digits -/

lemma tenTo_pos (k : Int) : 0 < tenTo k := zpow_pos (by norm_num) k

lemma pow_digitCount_le {n : Nat} (pos : 0 < n) : 10 ^ (digitCount n - 1) ≤ n := by
  by_cases single : digitCount n = 1
  · rw [single]
    exact pos
  · have some : 0 < digitCount n := Nat.length_toDigits_pos
    by_contra less
    have : digitCount n ≤ digitCount n - 1 :=
      (Nat.length_toDigits_le_iff (by norm_num) (by omega)).mpr (not_le.mp less)
    omega

lemma lt_pow_digitCount (n : Nat) : n < 10 ^ digitCount n :=
  (Nat.length_toDigits_le_iff (by norm_num) Nat.length_toDigits_pos).mp le_rfl

/-- The power of ten one below the decimal exponent does not exceed the number. -/
lemma tenTo_decimalExponent_le (pos : 0 < q) : tenTo (decimalExponent q - 1) ≤ q := by
  unfold decimalExponent
  split
  · next large =>
    obtain ⟨whole, floor, below, -⟩ := exists_floor pos.le
    have one : (1 : Int) ≤ q.floor := Rat.le_floor_iff.mpr (by simpa using large)
    rw [floor, Int.toNat_natCast]
    have some : 0 < digitCount whole := Nat.length_toDigits_pos
    calc tenTo ((digitCount whole : Int) - 1) = ((10 ^ (digitCount whole - 1) : Nat) : Rat) := by
          rw [tenTo, ← Nat.cast_one (R := Int), ← Nat.cast_sub some, zpow_natCast, Nat.cast_pow,
            Nat.cast_ofNat]
      _ ≤ (whole : Rat) := by exact_mod_cast pow_digitCount_le (by omega)
      _ ≤ q := below
  · next small =>
    generalize place : digitCount ((1 / q).ceil.toNat - 1) = places
    have bound := lt_pow_digitCount ((1 / q).ceil.toNat - 1)
    rw [place] at bound
    have ceiling : 1 / q ≤ ((10 ^ places : Nat) : Rat) := by
      have above : (1 / q) ≤ ((1 / q).ceil : Rat) := Rat.le_ceil
      have : (1 / q).ceil ≤ ((10 ^ places : Nat) : Int) := by omega
      exact above.trans (by exact_mod_cast this)
    calc tenTo (1 - (places : Int) - 1) = 1 / ((10 ^ places : Nat) : Rat) := by
          rw [tenTo, sub_sub_cancel_left, zpow_neg, zpow_natCast, Nat.cast_pow, Nat.cast_ofNat,
            one_div]
      _ ≤ q := by
          rw [div_le_iff₀ (by positivity), ← div_le_iff₀' pos]
          exact ceiling

/-- The whole part of a quotient brackets the number on the grid. -/
lemma grid_bracket {grid : Rat} (nonneg : 0 ≤ q) (pos : 0 < grid) :
    ((q / grid).floor.toNat : Rat) * grid ≤ q
      ∧ q < (((q / grid).floor.toNat + 1 : Nat) : Rat) * grid := by
  obtain ⟨below, floor, low, high⟩ := exists_floor (show 0 ≤ q / grid by positivity)
  rw [floor, Int.toNat_natCast, ← le_div_iff₀ pos, ← div_lt_iff₀ pos]
  exact ⟨low, by exact_mod_cast high⟩

/-- A neighbour that the search accepts reads back. -/
lemma reaches_of_neighbour? {exp : Int} {cnt digs : Nat}
    (found : neighbour? x exp cnt = some digs) : x.Reaches ((digs : Rat) * tenTo (exp - cnt)) := by
  obtain ⟨low, high⟩ := grid_bracket x.magnitude_nonneg (tenTo_pos (exp - cnt))
  unfold neighbour? at found
  dsimp only at found
  split at found
  · next down up =>
    obtain rfl := Option.some.inj found
    split
    · exact .inl ⟨low, down⟩
    · exact .inr ⟨high.le, up⟩
  · next down up =>
    obtain rfl := Option.some.inj found
    exact .inl ⟨low, down⟩
  · next down up =>
    obtain rfl := Option.some.inj found
    exact .inr ⟨high.le, up⟩
  · exact absurd found (by simp)

/-- On a grid narrower than the margin below there is always a neighbour. -/
lemma exists_neighbour {exp : Int} {cnt : Nat} (narrow : tenTo (exp - cnt) ≤ marginBelow x) :
    ∃ digs, neighbour? x exp cnt = some digs := by
  obtain ⟨-, high⟩ := grid_bracket x.magnitude_nonneg (tenTo_pos (exp - cnt))
  have down : within x (x.magnitude
      - ((x.magnitude / tenTo (exp - cnt)).floor.toNat : Rat) * tenTo (exp - cnt))
      (marginBelow x) := by
    apply within_of_lt
    push_cast at high
    linarith
  unfold neighbour?
  dsimp only
  split <;> simp_all

/-- The digits of a decimal are worth the same once settled. -/
lemma settled_worth (exp : Int) (cnt digs : Nat) :
    ((settled exp cnt digs).1 : Rat) * tenTo (settled exp cnt digs).2
      = (digs : Rat) * tenTo (exp - cnt) := by
  unfold settled
  split
  · next full =>
    subst full
    simp only [tenTo]
    rw [zpow_sub₀ (by norm_num)]
    simp [mul_div_cancel₀]
  · rfl

/-- The last grid of the search is narrower than the margin below. -/
lemma last_grid_narrow (wide : 2 ≤ f.fractionWidth) (nz : x.isZero = false) :
    tenTo (decimalExponent x.magnitude - ((f.fractionWidth + 1 : Nat) : Int)) ≤ marginBelow x := by
  have unit : (0 : Rat) < 2 ^ x.unitExponent := by positivity
  have cnt : (0 : Rat) < x.significand := by exact_mod_cast significand_pos nz
  have pos : 0 < x.magnitude := mul_pos cnt unit
  have margin : (2 : Rat) ^ x.unitExponent / 4 ≤ marginBelow x := by
    unfold marginBelow
    split <;> linarith
  have counts : (x.significand : Rat) ≤ 2 ^ (f.fractionWidth + 1) := by
    exact_mod_cast x.significand_lt.le
  have fives : (8 : Rat) * 2 ^ f.fractionWidth ≤ 10 ^ f.fractionWidth := by
    rw [show (10 : Rat) = 5 * 2 by norm_num, mul_pow]
    gcongr
    calc (8 : Rat) ≤ 5 ^ 2 := by norm_num
      _ ≤ 5 ^ f.fractionWidth := pow_le_pow_right₀ (by norm_num) wide
  calc tenTo (decimalExponent x.magnitude - ((f.fractionWidth + 1 : Nat) : Int))
      = tenTo (decimalExponent x.magnitude - 1) / 10 ^ f.fractionWidth := by
        rw [tenTo, tenTo, eq_div_iff (by positivity), ← zpow_natCast, ← zpow_add₀ (by norm_num)]
        congr 1
        push_cast
        ring
    _ ≤ x.magnitude / 10 ^ f.fractionWidth := by
        gcongr
        exact tenTo_decimalExponent_le pos
    _ ≤ 2 ^ (f.fractionWidth + 1) * 2 ^ x.unitExponent / 10 ^ f.fractionWidth := by
        unfold magnitude
        gcongr
    _ ≤ 2 ^ x.unitExponent / 4 := by
        rw [div_le_div_iff₀ (by positivity) (by norm_num), pow_succ]
        nlinarith
    _ ≤ marginBelow x := margin

/-- The digits found for a number read back. -/
lemma reaches_shortest (wide : 2 ≤ f.fractionWidth) (nz : x.isZero = false) :
    x.Reaches (((shortest x).1 : Rat) * tenTo (shortest x).2) := by
  obtain ⟨digs, last⟩ := exists_neighbour (last_grid_narrow wide nz)
  unfold shortest
  dsimp only
  cases search : (List.range (f.fractionWidth + 1)).findSome? fun k =>
      (neighbour? x (decimalExponent x.magnitude) (k + 1)).map
        (settled (decimalExponent x.magnitude) (k + 1)) with
  | none =>
    have nowhere := List.findSome?_eq_none_iff.mp search f.fractionWidth (by simp)
    rw [last] at nowhere
    exact absurd nowhere (by simp)
  | some pair =>
    obtain ⟨k, -, found⟩ := List.exists_of_findSome?_eq_some search
    obtain ⟨digs, acc, rfl⟩ := Option.map_eq_some_iff.mp found
    rw [Option.getD_some, settled_worth]
    exact reaches_of_neighbour? acc

/-- The digits found for a finite number read back as it. -/
lemma ofMagnitude_shortest (wide : 2 ≤ f.fractionWidth) (finite : x.isFinite)
    (nz : x.isZero = false) :
    ofMagnitude x.negative (((shortest x).1 : Rat) * tenTo (shortest x).2) = x :=
  ofMagnitude_of_reaches finite nz (reaches_shortest wide nz)

end ShaderAlgebra.Floating
