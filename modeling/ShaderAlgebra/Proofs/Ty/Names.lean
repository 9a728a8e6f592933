import Mathlib.Tactic.Lemma
import ShaderAlgebra.Ty.Name

/-!
# Names of the built-in types

The language lists the names of its types: each size in them is one digit (`Ty.IsNamed`). Reading a
name takes a size for any numeral of that worth, so it also reads names with a plus sign or with
zeros before a size, such as `vec02`, which the language leaves to its users. What is read is a
listed name with such padding put in, and it is a listed name if there is no padding
(`Ty.isNamed_iff`).
-/

namespace ShaderAlgebra.Ty

/-- The names that the language lists, with the types that they stand for. -/
inductive IsNamed : String → Ty → Prop
  | void : IsNamed "void" .void
  | bool : IsNamed "bool" .bool
  | int : IsNamed "int" .int
  | float : IsNamed "float" .float
  | vec (size : Dim) : IsNamed ("vec" ++ size.text) (.vector size .float)
  | ivec (size : Dim) : IsNamed ("ivec" ++ size.text) (.vector size .int)
  | bvec (size : Dim) : IsNamed ("bvec" ++ size.text) (.vector size .bool)
  | square (size : Dim) : IsNamed ("mat" ++ size.text) (.matrix size size)
  | matrix (columns rows : Dim) :
      IsNamed ("mat" ++ columns.text ++ "x" ++ rows.text) (.matrix columns rows)

/-- The text without plus signs and zeros. -/
def unpadded (cs : List Char) : List Char := cs.filter fun c => c != '+' && c != '0'

/-! ## Sizes -/

/-- What a digit adds to the digits before it. -/
def digitStep (n : Nat) (d : Char) : Nat := 10 * n + (d.toNat - '0'.toNat)

lemma le_foldl_digitStep (ds : List Char) (n : Nat) : n ≤ ds.foldl digitStep n := by
  induction ds generalizing n with
  | nil => exact Nat.le_refl n
  | cons d ds ih => exact Nat.le_trans (by unfold digitStep; omega) (ih (digitStep n d))

/-- A digit other than zero is worth at least one. -/
lemma one_le_of_isDigit {d : Char} (digit : d.isDigit) (nz : d ≠ '0') :
    1 ≤ d.toNat - '0'.toNat := by
  have range : 48 ≤ d.toNat := by
    simp only [Char.isDigit, Bool.and_eq_true, decide_eq_true_eq, ge_iff_le,
      UInt32.le_iff_toNat_le] at digit
    exact digit.1
  have oth : d.toNat ≠ 48 := fun same => nz (Char.toNat_inj.mp same)
  have : '0'.toNat = 48 := rfl
  omega

/-- Digits that are worth less than ten are zeros and one digit behind them. -/
lemma unpadded_of_foldl {ds : List Char} (digs : ∀ d ∈ ds, d.isDigit)
    (pos : 0 < ds.foldl digitStep 0) (small : ds.foldl digitStep 0 < 10) :
    ∃ d, unpadded ds = [d] ∧ d.toNat = ds.foldl digitStep 0 + '0'.toNat := by
  induction ds with
  | nil => cases pos
  | cons d ds ih =>
    obtain ⟨digit, others⟩ := List.forall_mem_cons.mp digs
    by_cases zero : d = '0'
    · subst zero
      exact ih others pos small
    · have one := one_le_of_isDigit digit zero
      cases ds with
      | nil =>
        have notSign : d ≠ '+' := by
          rintro rfl
          cases digit
        refine ⟨d, by simp [unpadded, zero, notSign], ?_⟩
        simp only [List.foldl_cons, List.foldl_nil, digitStep]
        omega
      | cons next ds =>
        have large := le_foldl_digitStep ds (digitStep (digitStep 0 d) next)
        simp only [List.foldl_cons] at small
        simp only [digitStep] at large small
        omega

/-- Without its padding a size is one digit. -/
lemma unpadded_of_dimension? {cs : List Char} {size : Dim} (read : dimension? cs = some size) :
    unpadded cs = size.text.toList := by
  obtain ⟨n, num, counted⟩ := Option.bind_eq_some_iff.mp read
  have cnt : n = size.count := by
    unfold Dim.ofCount? at counted
    split at counted <;> cases counted <;> rfl
  have range : 0 < size.count ∧ size.count < 10 := by cases size <;> decide
  unfold natural? at num
  generalize stripped : (if cs.head? = some '+' then cs.tail else cs) = ds at num
  have same : unpadded cs = unpadded ds := by
    subst stripped
    cases cs with
    | nil => rfl
    | cons c cs => by_cases sign : c = '+' <;> simp [unpadded, sign]
  dsimp only at num
  split at num
  · cases num
  · next digs =>
    have digs : ∀ d ∈ ds, d.isDigit := by simp_all
    have worth : ds.foldl digitStep 0 = size.count := (Option.some.inj num).trans cnt
    rw [← worth] at range
    obtain ⟨d, alone, isDigit⟩ := unpadded_of_foldl digs range.1 range.2
    have digit : d = Char.ofNat (size.count + '0'.toNat) := by
      rw [← worth, ← isDigit, Char.ofNat_toNat]
    rw [same, alone, digit]
    cases size <;> rfl

/-! ## Names -/

lemma eq_append_of_afterStart? {start cs rest : List Char}
    (found : afterStart? start cs = some rest) : cs = start ++ rest := by
  fun_induction afterStart? start cs with
  | case1 cs => exact Option.some.inj found
  | case2 => cases found
  | case3 a start cs ih => rw [ih found, List.cons_append]
  | case4 => cases found

variable {name : String} {ty : Ty}

lemma unpadded_append (cs ds : List Char) : unpadded (cs ++ ds) = unpadded cs ++ unpadded ds :=
  List.filter_append ..

lemma isNamed_of_matrixOf? {cs : List Char} (spelled : name.toList = ['m', 'a', 't'] ++ unpadded cs)
    (read : matrixOf? cs = some ty) : IsNamed name ty := by
  have parts : cs.takeWhile (· != 'x') ++ cs.dropWhile (· != 'x') = cs :=
    List.takeWhile_append_dropWhile
  simp only [matrixOf?] at read
  split at read
  · next none =>
    obtain ⟨size, sized, rfl⟩ := Option.map_eq_some_iff.mp read
    rw [none, List.append_nil] at parts
    rw [parts] at sized
    obtain rfl : name = "mat" ++ size.text := String.toList_injective (by
      rw [spelled, unpadded_of_dimension? sized, String.toList_append]
      rfl)
    exact .square size
  · next mark rows divided =>
    have x : mark = 'x' := by
      have := List.head?_dropWhile_not (fun c => c != 'x') cs
      rw [divided] at this
      simpa using this
    subst x
    rw [divided] at parts
    simp only [Option.bind_eq_bind, Option.bind_eq_some_iff] at read
    obtain ⟨c, cols, r, rowed, made⟩ := read
    obtain rfl := Option.some.inj made
    have between : unpadded ('x' :: rows) = 'x' :: unpadded rows := rfl
    obtain rfl : name = "mat" ++ c.text ++ "x" ++ r.text := String.toList_injective (by
      rw [spelled, ← parts, unpadded_append, between, unpadded_of_dimension? cols,
        unpadded_of_dimension? rowed]
      simp)
    exact .matrix c r

lemma size_of_vectorOf? (start : String) {kind : Kind} {cs : List Char}
    (spelled : name.toList = start.toList ++ unpadded cs) (read : vectorOf? kind cs = some ty) :
    ∃ size : Dim, name = start ++ size.text ∧ ty = .vector size kind := by
  obtain ⟨size, sized, rfl⟩ := Option.map_eq_some_iff.mp read
  refine ⟨size, String.toList_injective ?_, rfl⟩
  rw [spelled, unpadded_of_dimension? sized, String.toList_append]

lemma isNamed_of_ofName? {listed : String} (spelled : listed.toList = unpadded name.toList)
    (read : ofName? name = some ty) : IsNamed listed ty := by
  have rest {start cs : List Char} (found : afterStart? start name.toList = some cs) :
      listed.toList = unpadded start ++ unpadded cs := by
    rw [spelled, eq_append_of_afterStart? found, unpadded_append]
  have whole (plain : unpadded name.toList = name.toList) : listed = name :=
    String.toList_injective (spelled.trans plain)
  unfold ofName? at read
  split at read
  · next same => subst same; cases read; exact whole (by decide) ▸ .void
  split at read
  · next same => subst same; cases read; exact whole (by decide) ▸ .bool
  split at read
  · next same => subst same; cases read; exact whole (by decide) ▸ .int
  split at read
  · next same => subst same; cases read; exact whole (by decide) ▸ .float
  dsimp only at read
  split at read
  · exact isNamed_of_matrixOf? (rest ‹afterStart? ['m', 'a', 't'] _ = some _›) read
  · obtain ⟨size, rfl, rfl⟩ :=
      size_of_vectorOf? "ivec" (rest ‹afterStart? ['i', 'v', 'e', 'c'] _ = some _›) read
    exact .ivec size
  · obtain ⟨size, rfl, rfl⟩ :=
      size_of_vectorOf? "bvec" (rest ‹afterStart? ['b', 'v', 'e', 'c'] _ = some _›) read
    exact .bvec size
  · obtain ⟨size, rfl, rfl⟩ :=
      size_of_vectorOf? "vec" (rest ‹afterStart? ['v', 'e', 'c'] _ = some _›) read
    exact .vec size
  · cases read

/-- A listed name is what is read as the type and has neither a plus sign nor a zero. Every text
that is read becomes a listed name of the type when its plus signs and zeros are left out. -/
theorem isNamed_iff (name : String) (ty : Ty) :
    (IsNamed name ty ↔ ofName? name = some ty ∧ unpadded name.toList = name.toList)
      ∧ (ofName? name = some ty → IsNamed (String.ofList (unpadded name.toList)) ty) := by
  refine ⟨⟨fun named => ?_, fun ⟨read, plain⟩ => isNamed_of_ofName? plain.symm read⟩,
    isNamed_of_ofName? String.toList_ofList⟩
  cases named with
  | void | bool | int | float => exact ⟨rfl, by decide⟩
  | vec size | ivec size | bvec size | square size => cases size <;> exact ⟨rfl, by decide⟩
  | matrix columns rows => cases columns <;> cases rows <;> exact ⟨rfl, by decide⟩

/-- Reading takes a name that a user may give for the name of a type. -/
theorem ofName?_padded :
    ofName? "vec02" = some (.vec .two) ∧ ∀ ty, ¬ IsNamed "vec02" ty := by
  refine ⟨rfl, fun ty named => ?_⟩
  generalize spelled : "vec02" = name at named
  cases named with
  | void | bool | int | float => exact absurd spelled (by decide)
  | vec size | ivec size | bvec size | square size =>
    cases size <;> exact absurd spelled (by decide)
  | matrix columns rows => cases columns <;> cases rows <;> exact absurd spelled (by decide)

end ShaderAlgebra.Ty
