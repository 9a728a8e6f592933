import ShaderAlgebra.Literal.Basic
import ShaderAlgebra.Proofs.Number.Shortest
import ShaderAlgebra.Proofs.Render.Grammar

/-!
# How tokens are spelled

Written one after the other, tokens split apart again where none of them goes on into the next
character (`Stops`). `Scans` says so of a piece of text and carries over to a text made of pieces
(`Scans.append`). Words stop where no letter, digit or underscore follows, marks where no longer
mark begins, and numerals where neither digit nor point follows. The numerals of a literal spell
its absolute value.
-/

namespace ShaderAlgebra.Grammar

open List

variable {c : Char} {cs ds : List Char} {x : Single}

/-! ## Where tokens stop -/

/-- No token goes on past these characters if the given one comes next. -/
def Stops (cs : List Char) (c : Char) : Prop := ∀ more, token? (cs ++ c :: more) = none

/-- Whatever comes next, as long as it begins with an allowed character, the text before it splits
into these tokens. -/
def Scans (allowed : Char → Prop) (cs : List Char) (ts : List Token) : Prop :=
  ∀ rest us, (∀ c ∈ rest.head?, allowed c) → Splits rest us → Splits (cs ++ rest) (ts ++ us)

namespace Scans

variable {allowed later : Char → Prop} {cs ds : List Char} {ts us : List Token}

lemma token {t : Token} (spelled : token? cs = some t)
    (stops : ∀ c, allowed c → Stops cs c) : Scans allowed cs [t] := by
  intro rest us next after
  refine .token spelled (fun longer oth fits => ?_) after
  by_contra more
  obtain ⟨tail, rfl⟩ : ∃ tail, longer = cs ++ tail :=
    (prefix_of_prefix_length_le (prefix_append cs rest) fits (by omega)).imp fun _ same => same.symm
  obtain ⟨c, tail, rfl⟩ := exists_cons_of_ne_nil (l := tail) (by rintro rfl; simp at more)
  obtain ⟨rest, rfl, -⟩ := cons_prefix_iff.mp ((prefix_append_right_inj cs).mp fits)
  rw [stops c (next c (by simp)) tail] at oth
  exact absurd oth (by simp)

lemma blank (space : c.isWhitespace) : Scans (fun _ => True) [c] [] :=
  fun _ _ _ after => .blank space after

/-- Two pieces in a row, where the second begins with a character that may follow the first. -/
lemma append (fst : Scans allowed cs ts) (snd : Scans later (c :: ds) us) (next : allowed c) :
    Scans later (cs ++ c :: ds) (ts ++ us) := by
  intro rest vs begins after
  rw [append_assoc, append_assoc]
  refine fst _ _ ?_ (snd rest vs begins after)
  rintro _ ⟨⟩
  exact next

/-- Two pieces in a row, where anything may follow the first. -/
lemma followedBy (fst : Scans (fun _ => True) cs ts) (snd : Scans later ds us) :
    Scans later (cs ++ ds) (ts ++ us) := by
  intro rest vs begins after
  rw [append_assoc, append_assoc]
  exact fst _ _ (fun _ _ => trivial) (snd rest vs begins after)

lemma mono (scans : Scans allowed cs ts) (fewer : ∀ c, later c → allowed c) : Scans later cs ts :=
  fun rest us next after => scans rest us (fun c head => fewer c (next c head)) after

end Scans

/-! ## Words and marks -/

/-- A letter or an underscore, which begins a word, is not a digit and begins no mark. -/
lemma not_digit_of_starts (starts : (c.isAlpha || c == '_')) : c.isDigit = false := by
  have letter : c.isAlpha = (decide (c.val ≥ 'A'.val ∧ c.val ≤ 'Z'.val)
      || (decide (c.val ≥ 'a'.val) && decide (c.val ≤ 'z'.val))) := rfl
  simp only [letter, Bool.or_eq_true, Bool.and_eq_true, decide_eq_true_eq, beq_iff_eq,
    UInt32.le_iff_toNat_le, ge_iff_le] at starts
  simp only [Char.isDigit, Bool.and_eq_false_iff, decide_eq_false_iff_not, ge_iff_le,
    UInt32.le_iff_toNat_le]
  rcases starts with (upper | lower) | rfl
  · right
    have : 'A'.val.toNat = 65 := rfl
    have : '9'.val.toNat = 57 := rfl
    omega
  · right
    have : 'a'.val.toNat = 97 := rfl
    have : '9'.val.toNat = 57 := rfl
    omega
  · decide

/-- No mark begins with a character of a word. -/
lemma ofSpelling?_of_isWordChar (inWord : isWordChar c) : Mark.ofSpelling? (c :: cs) = none := by
  unfold Mark.ofSpelling?
  rw [find?_eq_none]
  intro m _ same
  have same : m.spelling = c :: cs := by simpa using same
  have outside : m.spelling.head?.any isWordChar = false := by cases m <;> rfl
  rw [same] at outside
  exact absurd inWord (by rw [show isWordChar c = false from outside]; decide)

lemma isWord_cons : isWord (c :: cs) ↔ (c.isAlpha || c == '_') ∧ cs.all isWordChar := by
  simp [isWord]

/-- A word ends where no character of a word follows. -/
lemma stops_word (word : isWord cs) (outside : isWordChar c = false) : Stops cs c := by
  intro more
  match cs with
  | d :: ds =>
    obtain ⟨starts, -⟩ := isWord_cons.mp word
    have inWord : isWordChar d := by
      simp only [isWordChar, Char.isAlphanum, Bool.or_eq_true] at starts ⊢
      tauto
    have longer : isWord (d :: ds ++ c :: more) = false := by simp [isWord, outside]
    have mark : Mark.ofSpelling? (d :: ds ++ c :: more) = none := ofSpelling?_of_isWordChar inWord
    have point : d ≠ '.' := by
      rintro rfl
      exact absurd starts (by decide)
    have numeral : numeral? (d :: ds ++ c :: more) = none := by
      simp [numeral?, not_digit_of_starts starts, point]
    exact token?_eq_none longer mark numeral

lemma token?_of_isIdentifier {name : String} (valid : IsIdentifier name) :
    token? name.toList = some (.word name) := by
  obtain ⟨word, notTrue, notFalse⟩ := valid
  simp [token?, word, wordToken, notTrue, notFalse]

/-- Whether a character that follows a mark belongs to a longer mark or makes the point part of a
numeral. -/
def Mark.joins (m : Mark) (c : Char) : Bool :=
  Mark.all.any (fun longer => (m.spelling ++ [c]).isPrefixOf longer.spelling)
    || (m == .dot && c.isDigit)

lemma token?_spelling (m : Mark) : token? m.spelling = some (.mark m) := by
  cases m <;> rfl

/-- A mark ends where no longer one goes on. -/
lemma stops_mark {m : Mark} (apart : m.joins c = false) : Stops m.spelling c := by
  simp only [Mark.joins, Bool.or_eq_false_iff, any_eq_false] at apart
  obtain ⟨noLonger, noDecimal⟩ := apart
  intro more
  refine token?_eq_none ?_ ?_ ?_
  · cases m <;> rfl
  · unfold Mark.ofSpelling?
    rw [find?_eq_none]
    intro longer member same
    have same : longer.spelling = m.spelling ++ c :: more := by simpa using same
    refine noLonger longer member ?_
    rw [same, isPrefixOf_iff_prefix, prefix_append_right_inj]
    exact ⟨more, rfl⟩
  · cases m with
    | dot =>
      have digit : c.isDigit = false := by simpa using noDecimal
      have point : '.'.isDigit = false := rfl
      simp [numeral?, Mark.spelling, digit, point]
    | _ => rfl

lemma scans_mark {m : Mark} {allowed : Char → Prop}
    (apart : ∀ c, allowed c → m.joins c = false) : Scans allowed m.spelling [.mark m] :=
  .token (token?_spelling m) fun c next => stops_mark (apart c next)

/-- No mark goes on past a blank. -/
lemma joins_space (m : Mark) : m.joins ' ' = false := by
  cases m <;> rfl

lemma joins_minus (c : Char) : Mark.minus.joins c = (c == '-' || c == '=') := by
  simp [Mark.joins, Mark.all, Mark.spelling, List.isPrefixOf, Bool.beq_comm]

lemma joins_bang (c : Char) : Mark.bang.joins c = (c == '=') := by
  simp [Mark.joins, Mark.all, Mark.spelling, List.isPrefixOf]

/-- A mark between blanks, and what comes after it. -/
lemma scans_spaced (m : Mark) {allowed : Char → Prop} {ts : List Token}
    (scans : Scans allowed cs ts) :
    Scans allowed (' ' :: (m.spelling ++ ' ' :: cs)) (.mark m :: ts) := by
  have blank : Scans allowed (' ' :: cs) ts := (Scans.blank rfl).followedBy scans
  have spaced : Scans (· = ' ') m.spelling [.mark m] := scans_mark fun c next => by
    rw [next]
    exact joins_space m
  exact (Scans.blank rfl).followedBy (spaced.append blank rfl)

/-! ## Numerals -/

/-- The digits of a numeral and what follows them. -/
lemma span_digits (digs : ds.all Char.isDigit) (rest : List Char) :
    (ds ++ rest).takeWhile Char.isDigit = ds ++ rest.takeWhile Char.isDigit
      ∧ (ds ++ rest).dropWhile Char.isDigit = rest.dropWhile Char.isDigit := by
  have each : ∀ d ∈ ds, d.isDigit := by simpa using digs
  exact ⟨takeWhile_append_of_pos each, dropWhile_append_of_pos each⟩

/-- Characters that begin with a digit are no word and no mark. -/
lemma token?_of_digit {d : Char} (digit : d.isDigit) : token? (d :: cs) = numeral? (d :: cs) := by
  have starts : (d.isAlpha || d == '_') = false := by
    by_contra other
    rw [not_digit_of_starts ((Bool.not_eq_false _).mp other)] at digit
    exact absurd digit (by decide)
  have word : isWord (d :: cs) = false := by rw [isWord, starts, Bool.false_and]
  have mark : Mark.ofSpelling? (d :: cs) = none :=
    ofSpelling?_of_isWordChar (by simp [isWordChar, Char.isAlphanum, digit])
  simp [token?, word, mark]

/-- An integer ends where neither digit nor point follows. -/
lemma stops_int (ne : ds ≠ []) (digs : ds.all Char.isDigit)
    (digit : c.isDigit = false) (point : c ≠ '.') : Stops ds c := by
  intro more
  obtain ⟨d, ds, rfl⟩ := exists_cons_of_ne_nil ne
  have fst : d.isDigit := by simp_all
  rw [cons_append, token?_of_digit fst, ← cons_append, numeral?,
    (span_digits digs _).2, dropWhile_cons_of_neg (by simp [digit])]
  split
  · exact absurd ‹_› (by simp)
  · next same => exact absurd (List.cons.inj same).1 point
  · rfl

/-- A decimal ends where no digit follows. -/
lemma stops_float {whole frac : List Char} (ne : whole ≠ []) (wholeDigits : whole.all Char.isDigit)
    (digit : c.isDigit = false) : Stops (whole ++ '.' :: frac) c := by
  intro more
  obtain ⟨d, ds, rfl⟩ := exists_cons_of_ne_nil ne
  have fst : d.isDigit := by simp_all
  rw [append_assoc, cons_append, token?_of_digit fst, ← cons_append, numeral?,
    (span_digits wholeDigits _).2, cons_append, dropWhile_cons_of_neg (by decide)]
  simp [digit]

lemma token?_int (ne : ds ≠ []) (digs : ds.all Char.isDigit)
    (plain : ds.head? = some '0' → ds = ['0']) :
    token? ds = some (.int (Nat.ofDigitChars 10 ds 0)) := by
  obtain ⟨d, rest, rfl⟩ := exists_cons_of_ne_nil ne
  have fst : d.isDigit := by simp_all
  have spans := span_digits digs []
  simp only [append_nil, takeWhile_nil, dropWhile_nil] at spans
  rw [token?_of_digit fst, numeral?, spans.1, spans.2]
  exact if_neg (by tauto)

lemma token?_float {whole frac : List Char} (ne : whole ≠ []) (wholeDigits : whole.all Char.isDigit)
    (fracDigits : frac.all Char.isDigit) :
    token? (whole ++ '.' :: frac)
      = some (.float (Floating.ofMagnitude false (decimalWorth whole frac))) := by
  obtain ⟨d, rest, rfl⟩ := exists_cons_of_ne_nil ne
  have fst : d.isDigit := by simp_all
  obtain ⟨taken, left⟩ := span_digits wholeDigits ('.' :: frac)
  rw [cons_append, token?_of_digit fst, ← cons_append, numeral?, taken, left,
    takeWhile_cons_of_neg (by decide), dropWhile_cons_of_neg (by decide)]
  simp [fracDigits]

/-! ## The numerals of a literal -/

/-- Of the digits of a natural number only a zero on its own comes first. -/
lemma toDigits_plain (n : Nat) :
    (Nat.toDigits 10 n).head? = some '0' → Nat.toDigits 10 n = ['0'] := by
  induction n using Nat.strong_induction_on with
  | _ n ih =>
    intro leading
    by_cases small : n < 10
    · rw [Nat.toDigits_of_lt_base small] at leading ⊢
      rw [head?_cons, Option.some.injEq] at leading
      rw [leading]
    · rw [Nat.toDigits_of_base_le (by omega) (by omega),
        head?_append_of_ne_nil _ Nat.toDigits_ne_nil] at leading
      have zero := ih (n / 10) (by omega) leading
      have : n / 10 = 0 := by
        rw [← Nat.ofDigitChars_ten_toDigits (n := n / 10), zero]
        rfl
      omega

lemma toDigits_digits (n : Nat) : (Nat.toDigits 10 n).all Char.isDigit := by
  rw [all_eq_true]
  exact fun c member => Nat.isDigit_of_mem_toDigits (by norm_num) (by norm_num) member

lemma exists_digit_toDigits (n : Nat) : ∃ c cs, Nat.toDigits 10 n = c :: cs ∧ c.isDigit := by
  obtain ⟨c, cs, digs⟩ := exists_cons_of_ne_nil (Nat.toDigits_ne_nil (n := n) (b := 10))
  have valid := toDigits_digits n
  rw [digs, all_cons, Bool.and_eq_true] at valid
  exact ⟨c, cs, digs, valid.1⟩

/-- The digits of a natural number are an integer of that value, up to a digit or a point. -/
lemma scans_int (n : Nat) :
    Scans (fun c => c.isDigit = false ∧ c ≠ '.') (Nat.toDigits 10 n) [.int n] := by
  refine .token ?_ fun c next => stops_int Nat.toDigits_ne_nil (toDigits_digits n) next.1 next.2
  rw [token?_int Nat.toDigits_ne_nil (toDigits_digits n) (toDigits_plain n),
    Nat.ofDigitChars_ten_toDigits]

lemma toList_toString (i : Int) :
    (toString i).toList = (if i < 0 then ['-'] else []) ++ Nat.toDigits 10 i.natAbs := by
  cases i with
  | ofNat n =>
    have nonneg : ¬ (Int.ofNat n < 0) := by simp
    rw [if_neg nonneg]
    exact (congrArg String.toList Nat.repr_eq_ofList_toDigits).trans (by simp)
  | negSucc n =>
    rw [if_pos (Int.negSucc_lt_zero n)]
    show ("-" ++ Nat.repr (n + 1)).toList = _
    simp [Nat.repr_eq_ofList_toDigits, Int.natAbs_negSucc]

/-- Digits around a decimal point that are worth the given rational. -/
def IsDecimal (cs : List Char) (q : Rat) : Prop :=
  ∃ whole fraction, cs = whole ++ '.' :: fraction ∧ whole ≠ []
    ∧ whole.all Char.isDigit = true ∧ fraction.all Char.isDigit = true
    ∧ decimalWorth whole fraction = q

/-- The characters with a point and a zero after them, unless they have a point. -/
def withPoint (cs : List Char) : List Char := if cs.contains '.' then cs else cs ++ ['.', '0']

lemma withPoint_of_digits (digs : cs.all Char.isDigit) : withPoint cs = cs ++ ['.', '0'] := by
  have noPoint : cs.contains '.' = false := by
    rw [contains_eq_mem, decide_eq_false_iff_not]
    intro member
    exact absurd (all_eq_true.mp digs _ member) (by decide)
  rw [withPoint, noPoint]
  rfl

/-- Digits with zeros after them, written with a point. -/
lemma isDecimal_trailing (digs power : Nat) :
    IsDecimal (withPoint (Nat.toDigits 10 digs ++ List.replicate power '0'))
      ((digs : Rat) * 10 ^ power) := by
  have valid : (Nat.toDigits 10 digs ++ List.replicate power '0').all Char.isDigit := by
    rw [all_append, toDigits_digits, Bool.true_and, all_eq_true]
    intro c member
    rw [eq_of_mem_replicate member]
    rfl
  refine ⟨_, ['0'], withPoint_of_digits valid, by simp [Nat.toDigits_ne_nil], valid, rfl, ?_⟩
  have worth : Nat.ofDigitChars 10 (Nat.toDigits 10 digs ++ List.replicate power '0' ++ ['0']) 0
      = 10 * (10 ^ power * digs) := by
    rw [Nat.ofDigitChars_append, Nat.ofDigitChars_append, Nat.ofDigitChars_ten_toDigits,
      Nat.ofDigitChars_replicate_zero]
    rfl
  rw [decimalWorth, worth]
  push_cast
  simp only [length_singleton]
  ring

/-- Digits with a point among them or before them, where zeros fill up what is missing. -/
lemma isDecimal_leading (digs places : Nat) (padded : List Char)
    (filled : padded = List.replicate (places + 1 - (Nat.toDigits 10 digs).length) '0'
      ++ Nat.toDigits 10 digs) :
    IsDecimal (padded.take (padded.length - places) ++ '.' :: padded.drop (padded.length - places))
      ((digs : Rat) / 10 ^ places) := by
  have long : places + 1 ≤ padded.length := by
    rw [filled, length_append, length_replicate]
    omega
  have valid : padded.all Char.isDigit := by
    rw [filled, all_append, toDigits_digits, Bool.and_true, all_eq_true]
    intro c member
    rw [eq_of_mem_replicate member]
    rfl
  have each := all_eq_true.mp valid
  have worth : Nat.ofDigitChars 10 padded 0 = digs := by
    rw [filled, Nat.ofDigitChars_append, Nat.ofDigitChars_replicate_zero, Nat.mul_zero,
      Nat.ofDigitChars_ten_toDigits]
  refine ⟨_, _, rfl, ?_, ?_, ?_, ?_⟩
  · intro none
    have := congrArg List.length none
    rw [length_take, length_nil] at this
    omega
  · exact all_eq_true.mpr fun c member => each c (mem_of_mem_take member)
  · exact all_eq_true.mpr fun c member => each c (mem_of_mem_drop member)
  · rw [decimalWorth, take_append_drop, worth, length_drop,
      show padded.length - (padded.length - places) = places by omega]

/-- An integer times a power of ten, written out and given a point if it has none, is a decimal of
that worth. -/
lemma isDecimal_positional (digs : Nat) (power : Int) :
    IsDecimal (withPoint (Floating.positional digs power).toList)
      ((digs : Rat) * Floating.tenTo power) := by
  unfold Floating.positional Floating.tenTo
  split
  · next nonneg =>
    obtain ⟨k, rfl⟩ := Int.eq_ofNat_of_zero_le nonneg
    rw [String.toList_ofList, Int.toNat_natCast, zpow_natCast]
    exact isDecimal_trailing digs k
  · next neg =>
    obtain ⟨k, rfl⟩ : ∃ k : Nat, power = -(k : Int) := ⟨power.natAbs, by omega⟩
    rw [zpow_neg, zpow_natCast, ← div_eq_mul_inv, String.toList_ofList, Int.natAbs_neg,
      Int.natAbs_natCast]
    have pointed : ∀ before after : List Char,
        withPoint (before ++ '.' :: after) = before ++ '.' :: after := by
      intro before after
      simp [withPoint]
    rw [pointed]
    exact isDecimal_leading digs k _ rfl

/-- The text of a finite number without its sign. -/
def unsignedText (x : Single) : List Char :=
  withPoint
    (if x.isZero then ['0'] else (Floating.positional x.shortest.1 x.shortest.2).toList)

lemma toList_toDecimal (x : Single) : x.toDecimal.toList = (if x.negative then ['-'] else [])
      ++ (if x.isZero then ['0'] else (Floating.positional x.shortest.1 x.shortest.2).toList) := by
  unfold Floating.toDecimal
  cases x.negative <;> cases x.isZero <;> simp

section

variable (finite : x.isFinite = true)

include finite

lemma toList_floatText :
    (Literal.floatText x).toList = (if x.negative then ['-'] else []) ++ unsignedText x := by
  obtain ⟨notNaN, notInfinite⟩ := Floating.number_of_isFinite finite
  have sign : ∀ cs : List Char, withPoint ((if x.negative then ['-'] else []) ++ cs)
      = (if x.negative then ['-'] else []) ++ withPoint cs := by
    intro cs
    unfold withPoint
    cases x.negative
    · simp
    · simp only [if_true, singleton_append, contains_cons]
      split <;> simp_all
  unfold unsignedText
  rw [← sign, ← toList_toDecimal, Literal.floatText, notNaN, notInfinite]
  unfold withPoint
  simp only [Bool.false_eq_true, if_false]
  split <;> simp

lemma isDecimal_unsignedText :
    ∃ q, IsDecimal (unsignedText x) q ∧ Floating.ofMagnitude false q = x.abs := by
  unfold unsignedText
  cases zero : x.isZero with
  | true =>
    refine ⟨0, ⟨['0'], ['0'], rfl, by simp, rfl, rfl, by simp [decimalWorth]; rfl⟩, ?_⟩
    obtain ⟨neg, exp, frac⟩ := x
    simp only [Floating.isZero, Bool.and_eq_true, beq_iff_eq] at zero
    have exponentZero : exp = 0 := BitVec.eq_of_toNat_eq (by simpa using zero.1)
    have fractionZero : frac = 0 := BitVec.eq_of_toNat_eq (by simpa using zero.2)
    rw [exponentZero, fractionZero]
    rfl
  | false =>
    refine ⟨_, isDecimal_positional _ _, ?_⟩
    exact Floating.ofMagnitude_shortest (x := x.abs) (by decide) finite zero

lemma exists_digit_unsignedText : ∃ c cs, unsignedText x = c :: cs ∧ c.isDigit := by
  obtain ⟨_, ⟨whole, frac, text, ne, digs, -⟩, -⟩ := isDecimal_unsignedText finite
  obtain ⟨c, rest, rfl⟩ := exists_cons_of_ne_nil ne
  exact ⟨c, rest ++ '.' :: frac, text, by simp_all⟩

/-- The text of a finite number without its sign stands for its absolute value. -/
lemma scans_float : Scans (fun c => c.isDigit = false) (unsignedText x) [.float x.abs] := by
  obtain ⟨q, ⟨whole, frac, text, ne, wholeDigits, fracDigits, worth⟩, reads⟩ :=
    isDecimal_unsignedText finite
  rw [text]
  refine .token ?_ fun c next => stops_float ne wholeDigits next
  rw [token?_float ne wholeDigits fracDigits, worth, reads]

end

end ShaderAlgebra.Grammar
