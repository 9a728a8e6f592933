import ShaderAlgebra.Proofs.Render.Spelling
import ShaderAlgebra.Proofs.Semantics.Exact
import ShaderAlgebra.Script.Basic

/-!
# Numerals of scripts

A numeral is a decimal with a sign, and its text gives the sign and the decimal
(`IsNumeral.unique`). Integers are written in full. A finite `float` is written as a decimal that it
is the nearest number to, so of all the integers only those that a `float` holds may be mistaken for
one.
-/

namespace ShaderAlgebra

open List

namespace Grammar

/-- What the digits around a point are worth is read off the characters. -/
lemma IsDecimal.unique {cs : List Char} {q r : Rat} (first : IsDecimal cs q)
    (second : IsDecimal cs r) : q = r := by
  obtain ⟨whole, fraction, rfl, -, digits, -, rfl⟩ := first
  obtain ⟨whole', fraction', same, -, digits', -, rfl⟩ := second
  have spans := span_digits digits ('.' :: fraction)
  have spans' := span_digits digits' ('.' :: fraction')
  rw [same, spans'.1, spans'.2] at spans
  simp only [takeWhile_cons_of_neg (show ¬ Char.isDigit '.' by decide),
    dropWhile_cons_of_neg (show ¬ Char.isDigit '.' by decide), append_nil,
    List.cons.injEq, true_and] at spans
  rw [spans.1, spans.2]

lemma IsDecimal.exists_digit {cs : List Char} {q : Rat} (decimal : IsDecimal (withPoint cs) q) :
    ∃ c rest, cs = c :: rest ∧ c.isDigit := by
  obtain ⟨whole, fraction, text, nonempty, digits, -⟩ := decimal
  obtain ⟨d, ds, rfl⟩ := exists_cons_of_ne_nil nonempty
  have digit : d.isDigit := by simp_all
  cases cs with
  | nil =>
    obtain rfl : '.' = d := (List.cons.inj text).1
    cases digit
  | cons c rest =>
    have same : c = d := by
      unfold withPoint at text
      split at text <;> exact (List.cons.inj text).1
    exact ⟨c, rest, rfl, same ▸ digit⟩

end Grammar

namespace Script

open Grammar (IsDecimal withPoint)

variable {digits : String} {q r : Rat} {x : Single}

/-- Whether the text is a decimal of that worth, behind a minus if it is negative. -/
def IsNumeral (digits : String) (negative : Bool) (q : Rat) : Prop :=
  ∃ cs, digits.toList = (if negative then ['-'] else []) ++ cs ∧ IsDecimal (withPoint cs) q

/-- A numeral has one sign and one worth. -/
lemma IsNumeral.unique {negative negative' : Bool} (first : IsNumeral digits negative q)
    (second : IsNumeral digits negative' r) : negative = negative' ∧ q = r := by
  obtain ⟨cs, text, decimal⟩ := first
  obtain ⟨cs', text', decimal'⟩ := second
  obtain ⟨c, rest, rfl, digit⟩ := decimal.exists_digit
  obtain ⟨c', rest', rfl, digit'⟩ := decimal'.exists_digit
  rw [text] at text'
  -- No digit is a minus.
  match negative, negative', text' with
  | false, false, same | true, true, same =>
    simp only [nil_append, singleton_append, Bool.false_eq_true, if_true, if_false,
      List.cons.injEq, true_and] at same
    obtain ⟨rfl, rfl⟩ := same
    exact ⟨rfl, decimal.unique decimal'⟩
  | false, true, same =>
    obtain rfl : c = '-' := (List.cons.inj same).1
    cases digit
  | true, false, same =>
    obtain rfl : '-' = c' := (List.cons.inj same).1
    cases digit'

lemma isNumeral_int (n : Int) : IsNumeral (toString n) (n < 0) n.natAbs := by
  refine ⟨Nat.toDigits 10 n.natAbs, by simpa using Grammar.toList_toString n, ?_⟩
  simpa using Grammar.isDecimal_trailing n.natAbs 0

/-- The number nearest to a decimal, with a sign. -/
def nearest (negative : Bool) (q : Rat) : Rat :=
  let magnitude := (Floating.ofMagnitude false q : Single).magnitude
  if negative then -magnitude else magnitude

lemma isNumeral_float (finite : x.isFinite) :
    ∃ q, IsNumeral x.toDecimal x.negative q ∧ x.value = nearest x.negative q := by
  obtain ⟨q, decimal, reads⟩ := Grammar.isDecimal_unsignedText finite
  refine ⟨q, ⟨_, Grammar.toList_toDecimal x, decimal⟩, ?_⟩
  rw [nearest, reads]
  rfl

lemma float_eq_toDecimal (finite : x.isFinite) : Expr.float x = .number x.toDecimal := by
  simp [Expr.float, Floating.number_of_isFinite finite]

/-! ## Numbers that are not finite -/

/-- The names of the numbers that are not finite, and what they stand for. -/
def namedNumbers (u : Unspecified) : List (String × Rat) :=
  [("NaN", u.nan), ("Infinity", u.infinity), ("-Infinity", -u.infinity)]

lemma namedNumbers_unique {u : Unspecified} (first : (digits, q) ∈ namedNumbers u)
    (second : (digits, r) ∈ namedNumbers u) : q = r := by
  simp only [namedNumbers, mem_cons, not_mem_nil, or_false, Prod.mk.injEq] at first second
  rcases first with ⟨rfl, rfl⟩ | ⟨rfl, rfl⟩ | ⟨rfl, rfl⟩ <;> simp_all

/-- There is no digit in the name of a number. -/
lemma not_isNumeral_of_named {u : Unspecified} {negative : Bool}
    (named : (digits, q) ∈ namedNumbers u) : ¬ IsNumeral digits negative r := by
  rintro ⟨cs, text, decimal⟩
  obtain ⟨c, rest, rfl, digit⟩ := decimal.exists_digit
  have letters : digits.toList.any Char.isDigit = false := by
    simp only [namedNumbers, mem_cons, not_mem_nil, or_false, Prod.mk.injEq] at named
    rcases named with ⟨rfl, -⟩ | ⟨rfl, -⟩ | ⟨rfl, -⟩ <;> rfl
  rw [text] at letters
  simp [digit] at letters

lemma named_of_not_isFinite (u : Unspecified) (notFinite : x.isFinite = false)
    (written : Expr.float x = .number digits) :
    (digits, Arithmetic.exactFloat u x) ∈ namedNumbers u := by
  obtain rfl := Expr.number.inj written
  rw [Arithmetic.exactFloat, notFinite]
  by_cases isNaN : x.isNaN
  · simp [namedNumbers, isNaN]
  · have isInfinite : x.isInfinite := by
      simp_all [Floating.isFinite, Floating.isNaN, Floating.isInfinite]
    cases x.negative <;> simp [namedNumbers, isNaN, isInfinite]

/-! ## Integers -/

/-- An integer of at most 24 bits is the nearest number to itself. -/
lemma nearest_int {n : Int} (small : n.natAbs < 2 ^ 24) : nearest (n < 0) n.natAbs = n := by
  have range : Format.single.leastUnit + Format.single.fractionWidth + Format.single.topExponent - 1
      = 128 := by decide
  have held : Floating.Holds Format.single (n.natAbs : Rat) := by
    refine ⟨n.natAbs, 0, by simp, small, by decide, ?_⟩
    rw [range]
    calc (n.natAbs : Rat) < (2 : Rat) ^ 24 := mod_cast small
      _ = (2 : Rat) ^ (24 : Int) := (zpow_ofNat 2 24).symm
      _ ≤ (2 : Rat) ^ (128 : Int) := zpow_le_zpow_right₀ (by norm_num) (by norm_num)
  have wide : 1 < Format.single.topExponent := by decide
  rw [nearest, Floating.magnitude_ofMagnitude wide (Nat.cast_nonneg _) held]
  by_cases negative : n < 0
  · simp [negative, abs_of_neg negative]
  · simp [negative, abs_of_nonneg (not_lt.mp negative)]

end Script

end ShaderAlgebra
