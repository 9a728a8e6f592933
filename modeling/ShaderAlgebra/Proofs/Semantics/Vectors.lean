import ShaderAlgebra.Proofs.Semantics.Floats
import ShaderAlgebra.Proofs.Typing.Builtins

/-!
# Dot product, cross product and mixture

The built-in functions on floats and float vectors that addition and multiplication are enough for,
in any arithmetic. `Interpretation.withVectors` is an interpretation in which their names mean them.

A function between the numbers of two arithmetics that commutes with the operations
(`Arithmetic.Commutes`) commutes with these functions too.
-/

namespace ShaderAlgebra

variable {ty : Ty}

/-! ## The functions -/

namespace Value

variable {A : Arithmetic}

/-- The sum of the products of the entries. -/
def dot (v w : Value A) : Value A :=
  ⟨Ty.float, A.real.sum (fun row => A.real.multiply (v.entry row) (w.entry row))
    (v.ty.componentCount?.getD 0)⟩

/-- The entry of a cross product, from the two entries that follow it in a circle. -/
def crossEntry (v w : Value A) (row : Nat) : A.Real :=
  A.real.subtract (A.real.multiply (v.entry ((row + 1) % 3)) (w.entry ((row + 2) % 3)))
    (A.real.multiply (v.entry ((row + 2) % 3)) (w.entry ((row + 1) % 3)))

def cross (v w : Value A) : Value A :=
  build (Ty.vec .three) fun
    | .float, _, row => crossEntry v w row
    | kind, _, _ => A.zero kind

lemma entry_cross {v w : Value A} {row : Nat} (ins : (Ty.vec .three).HasRow row) :
    (v.cross w).entry row = crossEntry v w row :=
  entry_build rfl ins fun scal => by cases scal

/-- What is left to one. -/
def complement (t : Value A) : Value A := binary .subtract ⟨Ty.float, A.real.one⟩ t

/-- The mixture `v * (1 - t) + w * t`. -/
def mix (v w t : Value A) : Value A :=
  binary .add (binary .multiply v t.complement) (binary .multiply w t)

end Value

namespace Interpretation

variable {A : Arithmetic}

/-- The interpretation in which the names of the three functions mean them. -/
def withVectors (I : Interpretation A) : Interpretation A where
  read := I.read
  beyond := I.beyond
  function name arguments ty :=
    match Builtin.ofName? name, arguments with
    | some .dot, [v, w] => (Value.dot v w).dataAs ty
    | some .cross, [v, w] => (Value.cross v w).dataAs ty
    | some .mix, [v, w, t] => (Value.mix v w t).dataAs ty
    | _, _ => I.function name arguments ty

section

variable (I : Interpretation A)

include I

lemma withVectors_dot (v w : Value A) :
    I.withVectors.call Builtin.dot.name [v, w] Ty.float = v.dot w := by
  simp only [call, Builtin.not_type, withVectors, Builtin.ofName?_name]
  exact Value.mk_dataAs rfl

lemma withVectors_cross (v w : Value A) :
    I.withVectors.call Builtin.cross.name [v, w] (Ty.vec .three) = v.cross w := by
  simp only [call, Builtin.not_type, withVectors, Builtin.ofName?_name]
  exact Value.mk_dataAs rfl

lemma withVectors_mix {v w t : Value A} (typed : (v.mix w t).ty = ty) :
    I.withVectors.call Builtin.mix.name [v, w, t] ty = v.mix w t := by
  simp only [call, Builtin.not_type, withVectors, Builtin.ofName?_name]
  exact Value.mk_dataAs typed

/-- A function that is not built in means what it did. -/
lemma withVectors_call {name : String} (notTy : Ty.ofName? name = none)
    (notBi : Builtin.ofName? name = none) (args : List (Value A)) (ty : Ty) :
    I.withVectors.call name args ty = ⟨ty, I.function name args ty⟩ := by
  simp only [call, notTy, withVectors, notBi]

end

end Interpretation

/-! ## Their types -/

namespace Ty

/-- The types of the arguments of a mixture: the first two have the type of the result, and the
weight has it or is a scalar. -/
def MixesTo (first second weight ty : Ty) : Prop :=
  first = ty ∧ second = ty ∧ (weight = ty ∨ weight = Ty.float) ∧ ty.isGenericFloat = true

namespace MixesTo

variable {first second weight ty : Ty}

/-- The types of the steps of a mixture. -/
lemma steps (mixes : MixesTo first second weight ty) :
    binary? .subtract Ty.float weight = some weight ∧ binary? .multiply ty weight = some ty
      ∧ weight.isGenericFloat ∧ binary? .add ty ty = some ty := by
  obtain ⟨rfl, rfl, same, gen⟩ := mixes
  obtain ⟨size, rfl⟩ := isGenericFloat_iff.mp gen
  rcases same with rfl | rfl <;> cases size <;>
    simp [plain, binary?, componentWise?, Kind.unify?, Ty.float, isGenericFloat, isMatrix]

end MixesTo

lemma hasRow_mod (row : Nat) : (vec .three).HasRow (row % 3) :=
  hasRow_of_lt (Nat.mod_lt row (by decide))

end Ty

namespace Value

variable {A : Arithmetic}

lemma ty_mix {v w t : Value A} (mixes : Ty.MixesTo v.ty w.ty t.ty ty) : (v.mix w t).ty = ty := by
  obtain ⟨left, scaled, -, sum⟩ := mixes.steps
  obtain ⟨rfl, same, -, -⟩ := mixes
  have complement : t.complement.ty = t.ty := ty_binary left
  refine ty_binary ?_
  rw [ty_binary (v := v) (complement ▸ scaled), ty_binary (v := w) (same ▸ scaled), same]
  exact sum

/-- The entries of a mixture are calculated one by one. -/
lemma entry_mix {v w t : Value A} (mixes : Ty.MixesTo v.ty w.ty t.ty ty) {row : Nat}
    (ins : ty.HasRow row) :
    (v.mix w t).entry row
      = A.real.add (A.real.multiply (v.entry row) (A.real.subtract A.real.one (t.entry row)))
        (A.real.multiply (w.entry row) (t.entry row)) := by
  have subtract : IsComponentWise .subtract := .inr (.inl rfl)
  obtain ⟨left, scaled, genW, sum⟩ := mixes.steps
  obtain ⟨same1, same2, -, gen⟩ := mixes
  have tyCompl : t.complement.ty = t.ty := ty_binary left
  have scaledFirst : Ty.binary? .multiply v.ty t.complement.ty = some ty := by
    rw [tyCompl, same1, scaled]
  have scaledSecond : Ty.binary? .multiply w.ty t.ty = some ty := by rw [same2, scaled]
  have typedFirst := ty_binary scaledFirst
  have typedSecond := ty_binary scaledSecond
  have insideWeight : t.ty.HasRow row :=
    ((Ty.binary?_generic .multiply gen genW scaled).2 row ins).2
  rw [mix, entry_binary (.inl rfl) (typedFirst.symm ▸ gen) (typedSecond.symm ▸ gen)
      (by rw [typedFirst, typedSecond, sum]) ins,
    entry_binary .multiply (same1.symm ▸ gen) (tyCompl.symm ▸ genW) scaledFirst ins,
    entry_binary .multiply (same2.symm ▸ gen) genW scaledSecond ins,
    complement, entry_binary subtract rfl genW left insideWeight]
  rfl

end Value

/-! ## Functions between numbers -/

namespace Arithmetic

variable {A B : Arithmetic}

/-- A function between the numbers of two arithmetics that keeps literals and commutes with negation
and the four operations. -/
structure Commutes (φ : A.Real → B.Real) : Prop where
  zero : φ A.real.zero = B.real.zero
  one : φ A.real.one = B.real.one
  literal : ∀ x, φ (A.ofFloat x) = B.ofFloat x
  negate : ∀ x, φ (A.real.negate x) = B.real.negate (φ x)
  combine : ∀ {op : BinaryOp}, Value.IsComponentWise op →
    ∀ x y, φ (A.real.combine op x y) = B.real.combine op (φ x) (φ y)

namespace Commutes

variable {φ : A.Real → B.Real}

section

variable (comm : Commutes φ) (x y : A.Real)

include comm x y

lemma add : φ (A.real.add x y) = B.real.add (φ x) (φ y) := comm.combine (.inl rfl) x y

lemma subtract : φ (A.real.subtract x y) = B.real.subtract (φ x) (φ y) :=
  comm.combine (.inr (.inl rfl)) x y

lemma multiply : φ (A.real.multiply x y) = B.real.multiply (φ x) (φ y) := comm.combine .multiply x y

end

lemma sum (comm : Commutes φ) {f : Nat → A.Real} {g : Nat → B.Real} {cnt : Nat}
    (terms : ∀ i < cnt, g i = φ (f i)) : B.real.sum g cnt = φ (A.real.sum f cnt) := by
  induction cnt with
  | zero => exact comm.zero.symm
  | succ cnt ih =>
    rw [Numbers.sum, Numbers.sum, comm.add, ih fun i lt => terms i (by omega), terms cnt (by omega)]

end Commutes

end Arithmetic

namespace Value.Entrywise

variable {A B : Arithmetic} {φ : A.Real → B.Real} {v v' : Value A} {w w' : Value B}

section

variable (comm : Arithmetic.Commutes φ) (first : Entrywise φ v w) (second : Entrywise φ v' w')

include comm first second

lemma dot (same : v'.ty = v.ty) : Entrywise φ (v.dot v') (w.dot w') := by
  refine ⟨rfl, rfl, fun _ _ => ?_⟩
  show B.real.sum _ (w.ty.componentCount?.getD 0) = φ (A.real.sum _ (v.ty.componentCount?.getD 0))
  rw [first.ty]
  refine comm.sum fun row lt => ?_
  have ins : v.ty.HasRow row := Ty.hasRow_of_lt lt
  rw [comm.multiply, first.entry row ins, second.entry row (same ▸ ins)]

lemma cross (typed : v.ty = Ty.vec .three) (typed' : v'.ty = Ty.vec .three) :
    Entrywise φ (v.cross v') (w.cross w') := by
  refine build rfl fun row _ => ?_
  show crossEntry w w' row = φ (crossEntry v v' row)
  unfold crossEntry
  rw [comm.subtract, comm.multiply, comm.multiply,
    first.entry _ (typed ▸ Ty.hasRow_mod (row + 1)), first.entry _ (typed ▸ Ty.hasRow_mod (row + 2)),
    second.entry _ (typed' ▸ Ty.hasRow_mod (row + 2)), second.entry _ (typed' ▸ Ty.hasRow_mod (row + 1))]

lemma mix {t : Value A} {t' : Value B} (weight : Entrywise φ t t')
    (mixes : Ty.MixesTo v.ty v'.ty t.ty ty) : Entrywise φ (v.mix v' t) (w.mix w' t') := by
  have subtract : IsComponentWise .subtract := .inr (.inl rfl)
  obtain ⟨left, scaled, -, sum⟩ := mixes.steps
  obtain ⟨same1, same2, -, -⟩ := mixes
  have one : Entrywise φ (⟨Ty.float, A.real.one⟩ : Value A) ⟨Ty.float, B.real.one⟩ :=
    ⟨rfl, rfl, fun _ _ => comm.one.symm⟩
  have complement : Entrywise φ t.complement t'.complement :=
    one.binary subtract (comm.combine subtract) weight left
  have tyCompl : t.complement.ty = t.ty := ty_binary left
  have byFirst := first.binary .multiply (comm.combine .multiply) complement
    (tyCompl ▸ same1 ▸ scaled)
  have bySecond := second.binary .multiply (comm.combine .multiply) weight (same2 ▸ scaled)
  have typed : Ty.binary? .add (Value.binary .multiply v t.complement).ty
      (Value.binary .multiply v' t).ty = some ty := by
    rw [ty_binary (v := v) (tyCompl ▸ same1 ▸ scaled),
      ty_binary (v := v') (same2 ▸ scaled), same1, same2]
    exact sum
  exact byFirst.binary (.inl rfl) (comm.combine (.inl rfl)) bySecond typed

end

end Value.Entrywise

end ShaderAlgebra
