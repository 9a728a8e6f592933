import ShaderAlgebra.Proofs.Calculus.Forms
import ShaderAlgebra.Proofs.Semantics.Dual
import ShaderAlgebra.Proofs.Semantics.Vectors
import ShaderAlgebra.Proofs.Simplify.Constants

/-!
# What a derivative denotes

A derivative is put together from nodes whose types are found as they are built. `Expr.Denotes` says
what such a tree of a generic float type is in exact arithmetic, entry by entry, and the lemmas here
follow the building: one to a node. So the value of a derivative is read off its form.
-/

namespace ShaderAlgebra

variable {op op' : BinaryOp}

/-! ## Types of sums and products -/

namespace Ty

/-- An operation on a generic float type with itself. -/
lemma binary?_self {ty : Ty} (wise : Value.IsComponentWise op) (generic : ty.isGenericFloat)
    : binary? op ty ty = some ty := by
  obtain ⟨size, rfl⟩ := isGenericFloat_iff.mp generic
  rcases wise with rfl | rfl | rfl | rfl <;> cases size <;>
    simp [plain, binary?, componentWise?, Kind.unify?, isMatrix]

/-- The result of an operation takes the right operand again. -/
lemma binary?_absorb {left right ty : Ty} (wise : Value.IsComponentWise op)
    (wise' : Value.IsComponentWise op') (genL : left.isGenericFloat) (genR : right.isGenericFloat)
    (typed : binary? op left right = some ty) : binary? op' ty right = some ty := by
  have generic := (binary?_generic wise genL genR typed).1
  rw [Value.binary?_eq_componentWise? wise (isMatrix_of_generic genL)
    (isMatrix_of_generic genR)] at typed
  rw [Value.binary?_eq_componentWise? wise' (isMatrix_of_generic generic)
    (isMatrix_of_generic genR)]
  obtain ⟨sizeL, rfl⟩ := isGenericFloat_iff.mp genL
  obtain ⟨sizeR, rfl⟩ := isGenericFloat_iff.mp genR
  cases sizeL <;> cases sizeR <;>
    simp_all [plain, componentWise?, Kind.unify?] <;> aesop

/-- The operations that are calculated entry by entry have the same types. -/
lemma binary?_congr {left right : Ty} (wise : Value.IsComponentWise op)
    (wise' : Value.IsComponentWise op') (genL : left.isGenericFloat) (genR : right.isGenericFloat) :
    binary? op' left right = binary? op left right := by
  rw [Value.binary?_eq_componentWise? wise (isMatrix_of_generic genL) (isMatrix_of_generic genR),
    Value.binary?_eq_componentWise? wise' (isMatrix_of_generic genL) (isMatrix_of_generic genR)]

end Ty

namespace Expr

variable {u : Unspecified} {terms : List Expr}

/-- The tree has a generic float type, and its value has the given entries. -/
structure Denotes (I : Interpretation (.exact u)) (ty : Ty) (f : Nat → Rat) (r : Expr) : Prop where
  annotation : r.ty = ty
  generic : ty.isGenericFloat = true
  value : (r.eval I).ty = ty
  part : ∀ row, ty.HasRow row → (r.eval I).part row = f row

namespace Denotes

variable {I : Interpretation (.exact u)} {ty a b : Ty} {f g : Nat → Rat} {l r q : Expr}

lemma congr (denotes : Denotes I ty f r) (same : ∀ row, ty.HasRow row → f row = g row) :
    Denotes I ty g r :=
  { denotes with part := fun row ins => (denotes.part row ins).trans (same row ins) }

/-- An operation on two trees. -/
lemma binary (wise : Value.IsComponentWise op) (left : Denotes I a f l) (right : Denotes I b g r)
    (built : binaryOf op l r = .ok q) (typed : Ty.binary? op a b = some ty) :
    Denotes I ty (fun row => (Arithmetic.exact u).real.combine op (f row) (g row)) q := by
  obtain ⟨own, typed', rfl⟩ := binaryOf_eq_ok.mp built
  rw [left.annotation, right.annotation, typed] at typed'
  obtain rfl := Option.some.inj typed'
  have tyV : Ty.binary? op (l.eval I).ty (r.eval I).ty = some ty := by
    rw [left.value, right.value, typed]
  have genL : (l.eval I).ty.isGenericFloat := left.value ▸ left.generic
  have genR : (r.eval I).ty.isGenericFloat := right.value ▸ right.generic
  obtain ⟨generic, rows⟩ := Ty.binary?_generic wise left.generic right.generic typed
  refine ⟨rfl, generic, Value.ty_binary tyV, fun row ins => ?_⟩
  have entries := Value.entry_binary wise genL genR tyV ins
  refine entries.trans ?_
  exact congrArg₂ ((Arithmetic.exact u).real.combine op) (left.part row (rows row ins).1)
    (right.part row (rows row ins).2)

section

variable (left : Denotes I a f l) (right : Denotes I b g r)

include left right

lemma add (built : binaryOf .add l r = .ok q)
    (typed : Ty.binary? .add a b = some ty) : Denotes I ty (fun row => f row + g row) q :=
  left.binary (.inl rfl) right built typed

lemma subtract (built : binaryOf .subtract l r = .ok q)
    (typed : Ty.binary? .subtract a b = some ty) : Denotes I ty (fun row => f row - g row) q :=
  left.binary (.inr (.inl rfl)) right built typed

lemma multiply (built : binaryOf .multiply l r = .ok q)
    (typed : Ty.binary? .multiply a b = some ty) : Denotes I ty (fun row => f row * g row) q :=
  left.binary .multiply right built typed

lemma divide (built : binaryOf .divide l r = .ok q) (typed : Ty.binary? .divide a b = some ty)
    (nz : ∀ row, ty.HasRow row → g row ≠ 0) : Denotes I ty (fun row => f row / g row) q := by
  refine (left.binary .divide right built typed).congr fun row ins => ?_
  exact if_neg (nz row ins)

end

lemma negate (opd : Denotes I ty f r) (built : unaryOf .negate r = .ok q) :
    Denotes I ty (fun row => -f row) q := by
  obtain ⟨own, typed, rfl⟩ := unaryOf_eq_ok.mp built
  have generic : (r.eval I).ty.isGenericFloat := opd.value ▸ opd.generic
  rw [opd.annotation] at typed
  obtain rfl := Ty.unary?_eq typed
  refine ⟨rfl, opd.generic, (Value.ty_negate generic).trans opd.value, fun row ins => ?_⟩
  have entries := Value.entry_negate generic (opd.value.symm ▸ ins)
  exact entries.trans (congrArg (Arithmetic.exact u).real.negate (opd.part row ins))

/-! ### Constants -/

section

variable (generic : ty.isGenericFloat = true)

include generic

lemma ofConstant {num : Double} {x : Rat} (found : constant? ty num = some r)
    (filled : (r.eval I).IsFilled x) : Denotes I ty (fun _ => x) r := by
  -- A constant is annotated wherever it stands.
  have cst : r.IsAnnotated ⟨.empty, none⟩ ∧ r.ty = ty := constant?_isAnnotated found
  obtain ⟨ann, typed⟩ := cst
  have val := (eval_ty I ann).trans typed
  exact ⟨typed, generic, val, fun row ins => filled row (val.symm ▸ ins)⟩

lemma zero (found : zero? ty = some r) : Denotes I ty (fun _ => 0) r :=
  ofConstant generic found (isFilled_zero? I (Ty.isPlain_of_generic generic) found)

lemma one (found : one? ty = some r) : Denotes I ty (fun _ => 1) r :=
  ofConstant generic found (isFilled_one? I (Ty.isPlain_of_generic generic) found)

end

lemma literalOne : Denotes I Ty.float (fun _ => 1) (DerivativeRule.float .one) :=
  ⟨rfl, rfl, rfl, Arithmetic.isFilled_ofLiteral worth?_literals.2.2.1⟩

lemma literalZero : Denotes I Ty.float (fun _ => 0) (ofFloat .zero) :=
  ⟨rfl, rfl, rfl, Arithmetic.isFilled_ofLiteral worth?_literals.2.1⟩

/-! ### Components -/

/-- A component at a constant index inside the vector. -/
lemma index {size : Dim} {pos : Nat} (ins : pos < size.count) (denotes : Denotes I (.vec size) f l)
    (built : l.indexOf (.ofInt (Int32.ofNat pos)) = .ok q) :
    Denotes I Ty.float (fun _ => f pos) q := by
  obtain ⟨own, typed, rfl⟩ := indexOf_eq_ok.mp built
  rw [denotes.annotation] at typed
  obtain rfl : Ty.float = own := Option.some.inj typed
  have place : (Value.ofLiteral (.int (Int32.ofNat pos)) : Value (.exact u)).place? = some pos := by
    have small : pos = 0 ∨ pos = 1 ∨ pos = 2 ∨ pos = 3 := by
      have : size.count ≤ 4 := by cases size <;> decide
      omega
    rcases small with rfl | rfl | rfl | rfl <;> rfl
  have val : (Expr.index l (.ofInt (Int32.ofNat pos)) Ty.float).eval I
      = ⟨Ty.float, (l.eval I).entry pos⟩ := by
    have found : (Value.ofLiteral (.int (Int32.ofNat pos)) : Value (.exact u)).place?.bind
        (l.eval I).element? = some ⟨Ty.float, (l.eval I).entry pos⟩ := by
      rw [place, Option.bind_some, Value.element?_vector denotes.value ins]
    show I.index (l.eval I) (.ofLiteral (.int (Int32.ofNat pos))) = _
    simp only [Interpretation.index, found]
  refine ⟨rfl, rfl, by rw [val], fun row _ => ?_⟩
  rw [val]
  exact denotes.part pos (Ty.hasRow_of_lt ins)

/-- A vector of zeros but for one component. -/
lemma single {size : Dim} {pos : Nat} {x : Rat} (picked : Denotes I Ty.float (fun _ => x) q) :
    Denotes I (.vec size) (fun row => if row = pos then x else 0) (.call (Ty.vec size).text
        ((List.range size.count).map fun i => if i = pos then q else .ofFloat .zero)
        (.vec size)) := by
  have each (i : Nat) : Denotes I Ty.float (fun _ => if i = pos then x else 0)
      (if i = pos then q else .ofFloat .zero) := by
    split
    · exact picked
    · exact literalZero
  have val : (Expr.call (Ty.vec size).text
      ((List.range size.count).map fun i => if i = pos then q else .ofFloat .zero)
      (.vec size)).eval I = .construct (.vec size) ((List.range size.count).map fun i =>
        (if i = pos then q else .ofFloat .zero).eval I) := by
    have named : Ty.ofName? (Ty.vec size).text = some (.vec size) := ofName?_text_vector size .float
    rw [eval, evalAll_eq, Interpretation.call, named, List.map_map]
    rfl
  refine ⟨rfl, rfl, ?_, fun row ins => ?_⟩
  · rw [val]
    cases size <;> rfl
  · rw [val]
    refine (Value.entry_construct_range (fun i => (each i).value) (ins size rfl)).trans ?_
    exact (each row).part 0 (Ty.hasRow_zero _)

/-! ### Sums -/

/-- Adding up terms that denote something denotes the sum. -/
lemma addTerms {tot : Expr} {gs : List (Nat → Rat)} (fst : Denotes I ty f tot)
    (rest : List.Forall₂ (Denotes I ty) gs terms)
    (added : (Derived.addTerms tot terms).outcome = .ok r) :
    Denotes I ty (fun row => f row + (gs.map fun g => g row).sum) r := by
  induction rest generalizing tot f with
  | nil =>
    obtain rfl : tot = r := by simpa [Derived.addTerms] using added
    exact fst.congr fun row _ => by simp
  | cons head _ ih =>
    simp only [Derived.addTerms, Logged.bind_ok, Derived.add_eq_ok] at added
    obtain ⟨sum, built, added⟩ := added
    have summed := fst.add head built (Ty.binary?_self (.inl rfl) fst.generic)
    exact (ih summed added).congr fun row _ => by simp [add_assoc]

end Denotes

/-- Trees of one type whose values add up to the given entries. -/
def SumTo (I : Interpretation (.exact u)) (ty : Ty) (f : Nat → Rat) (terms : List Expr) : Prop :=
  ∃ gs, List.Forall₂ (Denotes I ty) gs terms
    ∧ ∀ row, ty.HasRow row → (gs.map fun g => g row).sum = f row

namespace SumTo

variable {I : Interpretation (.exact u)} {ty : Ty} {f g : Nat → Rat} {r : Expr}

lemma append {fst snd : List Expr} (sums : SumTo I ty f fst) (sums' : SumTo I ty g snd) :
    SumTo I ty (fun row => f row + g row) (fst ++ snd) := by
  obtain ⟨fs, each, tot⟩ := sums
  obtain ⟨gs, each', tot'⟩ := sums'
  refine ⟨fs ++ gs, List.rel_append each each', fun row ins => ?_⟩
  rw [List.map_append, List.sum_append, tot row ins, tot' row ins]

/-- A term that is left out where it is zero. -/
lemma termIf {wanted : Bool} {term : Derived Expr}
    (found : (Derived.termIf wanted term).outcome = .ok terms)
    (there : ∀ {t}, term.outcome = .ok t → Denotes I ty f t)
    (missing : wanted = false → ∀ row, ty.HasRow row → f row = 0) : SumTo I ty f terms := by
  rw [Derived.termIf_eq_ok] at found
  cases wanted with
  | false =>
    obtain rfl : terms = [] := by simpa using found
    exact ⟨[], .nil, fun row ins => (missing rfl row ins).symm⟩
  | true =>
    obtain ⟨t, der, rfl⟩ : ∃ t, term.outcome = .ok t ∧ terms = [t] := by simpa using found
    exact ⟨[f], .cons (there der) .nil, fun row _ => by simp⟩

/-- The sum that a derivation makes of terms. Without terms it is the derivative of a constant. -/
lemma sum {d : Derivation} {val : Ty} (sums : SumTo I ty f terms)
    (empty : (d.zero val).outcome = .ok r → Denotes I ty (fun _ => 0) r)
    (summed : (d.sum terms val).outcome = .ok r) : Denotes I ty f r := by
  obtain ⟨gs, each, tot⟩ := sums
  cases each with
  | nil => exact (empty summed).congr tot
  | cons fst rest =>
    exact (fst.addTerms rest summed).congr fun row ins => by simpa using tot row ins

end SumTo

/-! ## Products of vectors -/

namespace Denotes

variable {I : Interpretation (.exact u)} {ty : Ty} {f g : Nat → Rat} {l r : Expr}

lemma dot (left : Denotes I.withVectors ty f l) (right : Denotes I.withVectors ty g r) :
    Denotes I.withVectors Ty.float
      (fun _ => ∑ row ∈ Finset.range (ty.componentCount?.getD 0), f row * g row)
      (DerivativeRule.floatCall .dot [l, r]) := by
  have val : (DerivativeRule.floatCall .dot [l, r]).eval I.withVectors
      = (l.eval I.withVectors).dot (r.eval I.withVectors) := by
    simp only [DerivativeRule.floatCall, eval, evalAll, Interpretation.withVectors_dot]
  refine ⟨rfl, rfl, by rw [val]; rfl, fun row _ => ?_⟩
  rw [val]
  have tot : ((l.eval I.withVectors).dot (r.eval I.withVectors)).part row
      = ∑ i ∈ Finset.range ((l.eval I.withVectors).ty.componentCount?.getD 0),
        (l.eval I.withVectors).part i * (r.eval I.withVectors).part i :=
    Arithmetic.sum_exact _ _
  rw [tot, left.value]
  refine Finset.sum_congr rfl fun i mem => ?_
  have ins : ty.HasRow i := Ty.hasRow_of_lt (Finset.mem_range.mp mem)
  rw [left.part i ins, right.part i ins]

lemma cross (left : Denotes I.withVectors (.vec .three) f l)
    (right : Denotes I.withVectors (.vec .three) g r) :
    Denotes I.withVectors (.vec .three)
      (fun row => f ((row + 1) % 3) * g ((row + 2) % 3) - f ((row + 2) % 3) * g ((row + 1) % 3))
      (.call Builtin.cross.name [l, r] (.vec .three)) := by
  have val : (Expr.call Builtin.cross.name [l, r] (.vec .three)).eval I.withVectors
      = (l.eval I.withVectors).cross (r.eval I.withVectors) := by
    simp only [eval, evalAll, Interpretation.withVectors_cross]
  refine ⟨rfl, rfl, by rw [val]; rfl, fun row here => ?_⟩
  refine (Value.entry_cross here).trans ?_
  rw [← left.part _ (Ty.hasRow_mod (row + 1)), ← left.part _ (Ty.hasRow_mod (row + 2)),
    ← right.part _ (Ty.hasRow_mod (row + 1)), ← right.part _ (Ty.hasRow_mod (row + 2))]
  rfl

end Denotes

end Expr

/-! ## Products and quotients -/

namespace Derivation

open ShaderAlgebra.Expr

variable {u : Unspecified} {I : Interpretation (.exact u)} {d : Derivation} {left right : Operand}
  {a b da db ty : Ty} {vl vr sl sr : Nat → Rat} {q : Expr}

variable (valueL : Denotes I a vl left.expr) (valueR : Denotes I b vr right.expr)
  (slopeL : ∀ {dl}, left.derivative.outcome = .ok dl → Denotes I da sl dl)
  (slopeR : ∀ {dr}, right.derivative.outcome = .ok dr → Denotes I db sr dr)
  (stillL : d.depends left.expr = false → ∀ row, a.HasRow row → sl row = 0)
  (stillR : d.depends right.expr = false → ∀ row, b.HasRow row → sr row = 0)
  (tyL : Ty.binary? .multiply da b = some ty) (tyR : Ty.binary? .multiply a db = some ty)

include valueL valueR slopeL slopeR stillL stillR tyL tyR

/-- The product rule: whichever form the derivative has, it denotes the sum of the two products. A
derivative that is not taken belongs to a factor that stands still. -/
lemma ProductForm.denotes (form : ProductForm d left right q) :
    Denotes I ty (fun row => sl row * vr row + vl row * sr row) q := by
  cases form with
  | constantLeft indep onR built =>
    have slope := slopeR onR
    have rows := (Ty.binary?_generic .multiply valueL.generic slope.generic tyR).2
    refine (valueL.multiply slope built tyR).congr fun row ins => ?_
    rw [stillL indep row (rows row ins).1, zero_mul, zero_add]
  | constantRight indep onL built =>
    have slope := slopeL onL
    have rows := (Ty.binary?_generic .multiply slope.generic valueR.generic tyL).2
    refine (slope.multiply valueR built tyL).congr fun row ins => ?_
    rw [stillR indep row (rows row ins).2, mul_zero, add_zero]
  | both onL onR fst snd built =>
    have byLeft := (slopeL onL).multiply valueR fst tyL
    have byRight := valueL.multiply (slopeR onR) snd tyR
    exact byLeft.add byRight built (Ty.binary?_self (.inl rfl) byLeft.generic)

/-- The quotient rule, where no component of the divisor is zero. -/
lemma RatioForm.denotes (form : RatioForm d left right q)
    (absorbed : Ty.binary? .divide ty b = some ty) (nz : ∀ row, b.HasRow row → vr row ≠ 0) :
    Denotes I ty (fun row => (sl row * vr row - vl row * sr row) / (vr row * vr row)) q := by
  have nonzeroAt (generic : ty.isGenericFloat) (row : Nat) (ins : ty.HasRow row) : vr row ≠ 0 :=
    nz row ((Ty.binary?_generic .divide generic valueR.generic absorbed).2 row ins).2
  have nonzeroSquare (generic : ty.isGenericFloat) (row : Nat) (ins : ty.HasRow row) :
      vr row * vr row ≠ 0 :=
    mul_ne_zero (nonzeroAt generic row ins) (nonzeroAt generic row ins)
  have squared := Ty.binary?_self .multiply valueR.generic
  cases form with
  | constantRight indep onL built =>
    have slope := slopeL onL
    obtain ⟨generic, rows⟩ := Ty.binary?_generic .multiply slope.generic valueR.generic tyL
    have typed : Ty.binary? .divide da b = some ty :=
      (Ty.binary?_congr .multiply .divide slope.generic valueR.generic).trans tyL
    refine (slope.divide valueR built typed (nonzeroAt generic)).congr fun row ins => ?_
    rw [stillR indep row (rows row ins).2, mul_zero, sub_zero,
      mul_div_mul_right _ _ (nonzeroAt generic row ins)]
  | constantLeft indep onR square prod divided built =>
    have slope := slopeR onR
    obtain ⟨generic, rows⟩ := Ty.binary?_generic .multiply valueL.generic slope.generic tyR
    have above := valueL.multiply slope prod tyR
    have below := valueR.multiply valueR square squared
    refine ((above.divide below divided absorbed (nonzeroSquare generic)).negate built).congr
      fun row ins => ?_
    rw [stillL indep row (rows row ins).1, zero_mul, zero_sub, neg_div]
  | both onL onR square fst snd diff built =>
    have byLeft := (slopeL onL).multiply valueR fst tyL
    have byRight := valueL.multiply (slopeR onR) snd tyR
    have generic := byLeft.generic
    have above := byLeft.subtract byRight diff (Ty.binary?_self (.inr (.inl rfl)) generic)
    exact above.divide (valueR.multiply valueR square squared) built absorbed
      (nonzeroSquare generic)

end Derivation

end ShaderAlgebra
