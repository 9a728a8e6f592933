import ShaderAlgebra.Proofs.Calculus.Slope

/-!
# Derivatives by a vector

By a vector, expressions are differentiated component by component. The derivative of a scalar is
its gradient. That of a vector is only the diagonal of the Jacobian: how fast each component changes
with the same component of the variable. Both are denoted entry by entry by `Expr.gradientAt`.

When a scalar is made of vectors again, by picking a component or by a dot product, the rest of the
Jacobian is taken for zero. So the gradient is right if that is so (`Expr.ActsByComponent`), and it
is so if no vector is combined with a scalar that mentions the variable (`Expr.IsUnmixed`).
Otherwise it can be wrong: `(p * p.x).y` is differentiated as if `p.x` did not change it.
-/

namespace ShaderAlgebra

open Logged

variable {op : BinaryOp} {name : String} {k : Nat}

/-! ## Directions -/

namespace Tangent

variable {u : Unspecified}

/-- Only one component of the variable changes. -/
def toward (name : String) (k : Nat) : Tangent u :=
  ⟨fun other row => if other = name ∧ row = k then 1 else 0, fun _ _ _ => 0⟩

lemma toward_still (name : String) (k : Nat) : (toward name k : Tangent u).MovesOnly name :=
  fun _ _ differs => if_neg fun same => differs same.1

end Tangent

/-! ## Rational expressions -/

namespace Ty

variable {size : Dim} {ty : Ty}

lemma derivative?_vec (plain : ty = .float ∨ ty = .vec size) :
    ty.derivative? (.vec size) = some (.vec size) := by
  rcases plain with rfl | rfl <;> simp [derivative?, float, vec, isMatrix, withKind?]

section

variable (wise : Value.IsComponentWise op) (plain : ty = .float ∨ ty = .vec size)

include wise plain

lemma binary?_vec_left : binary? op (.vec size) ty = some (.vec size) := by
  rcases plain with rfl | rfl
  · rcases wise with rfl | rfl | rfl | rfl <;> rfl
  · exact binary?_self wise rfl

lemma binary?_vec_right : binary? op ty (.vec size) = some (.vec size) := by
  rcases plain with rfl | rfl
  · rcases wise with rfl | rfl | rfl | rfl <;> rfl
  · exact binary?_self wise rfl

end

lemma element?_plain {elt : Ty} (plain : ty = .float ∨ ty = .vec size)
    (typed : ty.element? = some elt) : elt = .float := by
  rcases plain with rfl | rfl
  · cases typed
  · exact (Option.some.inj typed).symm

lemma hasRow_of_vec (plain : ty = .float ∨ ty = .vec size) {row : Nat}
    (ins : (Ty.vec size).HasRow row) : ty.HasRow row := by
  rcases plain with rfl | rfl
  · intro oth found
    cases found
  · exact ins

end Ty

namespace Expr

/-- Whether the tree is built on floats and on vectors of one size by the four operations, by
picking components and by dot products. -/
inductive IsRational (size : Dim) : Expr → Prop
  | literal (x : Single) (ty : Ty) : IsRational size (.literal (.float x) ty)
  | scalar (name : String) : IsRational size (.ident name .float)
  | vector (name : String) : IsRational size (.ident name (.vec size))
  | negate {operand : Expr} (ty : Ty) (rational : IsRational size operand) :
    IsRational size (.unary .negate operand ty)
  | binary {op : BinaryOp} {left right : Expr} (ty : Ty) (wise : Value.IsComponentWise op)
    (rationalLeft : IsRational size left) (rationalRight : IsRational size right) :
    IsRational size (.binary op left right ty)
  | swizzle {base : Expr} (name : String) (rational : IsRational size base) :
    IsRational size (.field base name .float)
  | index {base : Expr} (n : Int32) (own ty : Ty) (rational : IsRational size base) :
    IsRational size (.index base (.literal (.int n) own) ty)
  | dot {first second : Expr} (rationalFirst : IsRational size first)
    (rationalSecond : IsRational size second) :
    IsRational size (.call Builtin.dot.name [first, second] .float)

section

variable {size : Dim} {site : Site} {e : Expr}

lemma IsRational.isSmooth (cat : Catalogue) (rat : e.IsRational size) : e.IsSmooth cat := by
  induction rat with
  | literal x ty => exact .literal x ty
  | scalar name | vector name => exact .ident name rfl
  | negate ty _ ih => exact .negate ty ih
  | binary ty wise _ _ ihLeft ihRight => exact .binary ty wise ihLeft ihRight
  | swizzle name _ ih => exact .swizzle name .float ih
  | index n own ty _ ih => exact .index n own ty ih
  | dot _ _ ihFirst ihSecond => exact .dot rfl ihFirst ihSecond

/-- The parts of a rational tree are rational, but for the place of a component. -/
lemma IsRational.part {p : Expr} (rat : e.IsRational size) (mem : p ∈ e.children) :
    p.IsRational size ∨ ∃ n own, p = .literal (.int n) own := by
  cases rat <;> simp only [children, List.mem_cons, List.not_mem_nil, or_false] at mem <;> grind

/-- A rational tree is a float or a vector of the size. -/
lemma IsRational.plain (rat : e.IsRational size) (ann : e.IsAnnotated site) :
    e.ty = .float ∨ e.ty = .vec size := by
  induction rat with
  | literal x ty =>
    obtain rfl : ty = Ty.float := ann.fits
    exact .inl rfl
  | scalar name => exact .inl rfl
  | vector name => exact .inr rfl
  | @negate opd ty _ ih =>
    obtain rfl : opd.ty = ty := Ty.unary?_eq ann.fits
    exact ih (ann.part mem_operand)
  | @binary op left right ty wise _ _ ihLeft ihRight =>
    have typed : Ty.binary? op left.ty right.ty = some ty := ann.fits
    have plainL := ihLeft (ann.part mem_left)
    rcases ihRight (ann.part mem_right) with scal | vec
    · rcases plainL with scal' | vec'
      · rw [scal, scal', Ty.binary?_self wise rfl] at typed
        exact .inl (Option.some.inj typed).symm
      · rw [vec', Ty.binary?_vec_left wise (.inl scal)] at typed
        exact .inr (Option.some.inj typed).symm
    · rw [vec, Ty.binary?_vec_right wise plainL] at typed
      exact .inr (Option.some.inj typed).symm
  | swizzle name _ _ => exact .inl rfl
  | @index base n own ty _ ih =>
    exact .inl (Ty.element?_plain (ih (ann.part mem_indexed)) ann.fits.2)
  | dot _ _ _ _ => exact .inl rfl

end

/-! ## What a vector depends on -/

section

variable {u : Unspecified} {I : Interpretation (.exact u)} {name : String} {size : Dim}
  {site : Site} {e : Expr}

/-- No component of a vector in the tree changes with another component of the variable. -/
def ActsByComponent (I : Interpretation (.exact u)) (name : String) (e : Expr) : Prop :=
  ∀ v, Within v e → v.ty.isVector = true →
    ∀ k row, v.ty.HasRow row → row ≠ k → v.slopeAt I (.toward name k) row = 0

/-- If the root combines a vector with a scalar, the scalar does not mention the variable. -/
def CombinesEvenly (name : String) : Expr → Prop
  | .binary _ left right ty => ty.isVector = true →
    (left.ty.isScalar = true → left.mentions name = false)
      ∧ (right.ty.isScalar = true → right.mentions name = false)
  | _ => True

/-- No vector is combined with a scalar that mentions the variable. -/
def IsUnmixed (name : String) (e : Expr) : Prop := ∀ s, Within s e → s.CombinesEvenly name

lemma ActsByComponent.part {part : Expr} (acts : e.ActsByComponent I name)
    (mem : part ∈ e.children) : part.ActsByComponent I name :=
  fun v ins => acts v (.part mem ins)

lemma IsUnmixed.part {part : Expr} (unmixed : e.IsUnmixed name) (mem : part ∈ e.children) :
    part.IsUnmixed name :=
  fun s ins => unmixed s (.part mem ins)

/-- An operand of an unmixed vector: a vector that acts by component, or a scalar that stands
still. -/
lemma slopeAt_operand {row : Nat} (rat : e.IsRational size) (ann : e.IsAnnotated site)
    (acts : e.ActsByComponent I name) (even : e.ty.isScalar → e.mentions name = false)
    (ins : e.ty.HasRow row) (differs : row ≠ k) : e.slopeAt I (.toward name k) row = 0 := by
  rcases rat.plain ann with scal | vec
  · have indep : e.mentions name = false := even (by rw [scal]; rfl)
    refine (rat.isSmooth .empty).eval_still I ann (fun oth row ment => ?_) ins
    refine Tangent.toward_still name k oth row ?_
    rintro rfl
    exact absurd ment (by simp [indep])
  · exact acts e .root (by rw [vec]; rfl) k row ins differs

/-- In an unmixed tree every vector acts by component. -/
lemma IsUnmixed.actsByComponent (rat : e.IsRational size) (ann : e.IsAnnotated site)
    (unmixed : e.IsUnmixed name) : e.ActsByComponent I name := by
  induction e using Expr.induction with
  | node e ih =>
  have acts {p : Expr} (mem : p ∈ e.children) (rat : p.IsRational size) :
      p.ActsByComponent I name :=
    ih p mem rat (ann.part mem) (unmixed.part mem)
  refine forall_within_iff.mpr ⟨fun isVec k row ins differs => ?_, fun p mem => ?_⟩
  · have notFloat : e.ty ≠ .float := by
      intro same
      rw [same] at isVec
      cases isVec
    cases rat with
    | literal x ty => exact absurd ann.fits notFloat
    | scalar | swizzle | dot => exact absurd rfl notFloat
    | index n own ty rat =>
      have plain := rat.plain (ann.part mem_indexed)
      exact absurd (Ty.element?_plain plain ann.fits.2) notFloat
    | vector oth =>
      refine (I.slope_read_dual _ oth rfl ins).trans (if_neg fun same => differs ?_)
      exact same.2
    | @negate opd ty rat =>
      obtain rfl : opd.ty = ty := Ty.unary?_eq ann.fits
      rw [slopeAt_negate (rat.isSmooth .empty) ann ins]
      exact neg_eq_zero.mpr (acts mem_operand rat _ .root isVec k row ins differs)
    | binary ty wise ratL ratR =>
      obtain ⟨evenL, evenR⟩ := unmixed _ .root isVec
      have annL := ann.part mem_left
      have annR := ann.part mem_right
      have smoothL := ratL.isSmooth .empty
      have smoothR := ratR.isSmooth .empty
      have rows := (Ty.binary?_generic wise (smoothL.generic annL)
        (smoothR.generic annR) ann.fits).2 row ins
      have stillL := slopeAt_operand ratL annL (acts mem_left ratL) evenL rows.1 differs
      have stillR := slopeAt_operand ratR annR (acts mem_right ratR) evenR rows.2 differs
      refine (congrArg Arithmetic.slope (entry_eval_binary wise smoothL smoothR ann ins)).trans ?_
      exact Arithmetic.slope_combine_eq_zero wise stillL stillR
  · rcases rat.part mem with rat | ⟨n, own, rfl⟩
    · exact acts mem rat
    · obtain rfl : own = .int := (ann.part mem).fits
      exact within_leaf rfl fun isVec => by cases isVec

end

end Expr

/-! ## Gradients -/

namespace Expr

variable {u : Unspecified} {I : Interpretation (.exact u)} {name : String} {size : Dim}
  {e r : Expr}

/-- How fast an entry changes with the same component of the variable. A scalar has one entry, which
stands in every row. -/
def gradientAt (I : Interpretation (.exact u)) (name : String) (e : Expr) (k : Nat) : Rat :=
  e.slopeAt I (.toward name k) k

/-- The derivative denotes the gradient. If it is a vector filled with a literal, that is a zero or
a one. -/
structure HasGradient (I : Interpretation (.exact u)) (name : String) (size : Dim) (e r : Expr) :
    Prop where
  denotes : Denotes I.withVectors (.vec size) (e.gradientAt I name) r
  splat : r.splat? = none ∨ zero? (.vec size) = some r ∨ one? (.vec size) = some r

lemma splat?_binaryOf {a b q : Expr} (built : binaryOf op a b = .ok q) : q.splat? = none := by
  obtain ⟨own, -, rfl⟩ := binaryOf_eq_ok.mp built
  rfl

lemma splat?_call {fn : String} {fst snd : Expr} {rest : List Expr} {ty : Ty} :
    (Expr.call fn (fst :: snd :: rest) ty).splat? = none := by
  cases fst <;> rfl

lemma splat?_constant? {num val : Double} (found : constant? (.vec size) num = some r)
    (filled : r.splat? = some val) : val = (num.convert Format.single).convert Format.double := by
  obtain rfl := Option.some.inj found
  have named : Ty.ofName? (Ty.vec size).text = some (.vec size) := ofName?_text_vector size .float
  have same : (Expr.call (Ty.vec size).text [ofLiteral (Literal.ofDouble .float num)]
      (.vec size)).splat? = (Literal.ofDouble .float num).toDouble? := by
    simp only [splat?, ofLiteral, named, decide_true, Bool.and_true]
    rfl
  exact (Option.some.inj (same.symm.trans filled)).symm

/-- A vector of zeros or of ones is filled with what its literal says. -/
lemma HasGradient.picked {val : Double} (grad : HasGradient I name size e r)
    (filled : r.splat? = some val) (ins : k < size.count) :
    Denotes I.withVectors Ty.float (fun _ => e.gradientAt I name k)
      (.ofFloat (val.convert Format.single)) := by
  have hasRow : (Ty.vec size).HasRow k := Ty.hasRow_of_lt ins
  have lit {x : Rat} (worth : Arithmetic.worth? (.float (val.convert Format.single)) = some x)
      (same : e.gradientAt I name k = x) :
      Denotes I.withVectors Ty.float (fun _ => e.gradientAt I name k)
        (.ofFloat (val.convert Format.single)) := by
    refine ⟨rfl, rfl, rfl, fun row ins => ?_⟩
    rw [same]
    exact Arithmetic.isFilled_ofLiteral worth row ins
  rcases grad.splat with none | zero | one
  · rw [none] at filled
    cases filled
  · refine lit (x := 0) ?_ ?_
    · rw [splat?_constant? zero filled]
      decide +kernel
    · exact (grad.denotes.part k hasRow).symm.trans ((Denotes.zero rfl zero).part k hasRow)
  · refine lit (x := 1) ?_ ?_
    · rw [splat?_constant? one filled]
      decide +kernel
    · exact (grad.denotes.part k hasRow).symm.trans ((Denotes.one rfl one).part k hasRow)

end Expr

namespace Derivation

open ShaderAlgebra.Expr Derived

variable {u : Unspecified} {I : Interpretation (.exact u)} {d : Derivation} {size : Dim}
  {site : Site} {e l r q : Expr} {ty : Ty}

/-- A rational part whose vectors act by component and whose derivative has its gradient. -/
structure Gradients (d : Derivation) (I : Interpretation (.exact u)) (size : Dim) (site : Site)
    (e : Expr) : Prop where
  rational : e.IsRational size
  annotated : e.IsAnnotated site
  acts : e.ActsByComponent I d.name
  gradient : ∀ {r}, (d.derive e).outcome = .ok r → HasGradient I d.name size e r

lemma Gradients.plain (part : Gradients d I size site e) : e.ty = .float ∨ e.ty = .vec size :=
  part.rational.plain part.annotated

lemma Gradients.changes (part : Gradients d I size site e) :
    Changes d I (.toward d.name) site e (.vec size) :=
  ⟨part.rational.isSmooth d.catalogue, part.annotated, fun _ => Ty.hasRow_of_vec part.plain,
    fun der => (part.gradient der).denotes⟩

/-- The derivative of a constant. -/
lemma denotes_zero_vec (vec : d.ty = .vec size) (plain : ty = .float ∨ ty = .vec size)
    (der : (d.zero ty).outcome = .ok q) :
    zero? (.vec size) = some q ∧ Denotes I (.vec size) (fun _ => 0) q := by
  obtain ⟨own, typed, found⟩ := zero_eq_ok.mp der
  rw [vec, Ty.derivative?_vec plain] at typed
  obtain rfl := Option.some.inj typed
  exact ⟨found, Denotes.zero rfl found⟩

lemma hasGradient_zero (vec : d.ty = .vec size) (rat : e.IsRational size)
    (ann : e.IsAnnotated site) (indep : d.depends e = false)
    (der : (d.zero e.ty).outcome = .ok q) : HasGradient I d.name size e q := by
  have plain := rat.plain ann
  obtain ⟨found, denotes⟩ := denotes_zero_vec (I := I.withVectors) vec plain der
  refine ⟨denotes.congr fun k ins => ?_, .inr (.inl found)⟩
  exact (slopeAt_eq_zero (Tangent.toward_still d.name k) (rat.isSmooth d.catalogue) ann
    indep (Ty.hasRow_of_vec plain ins)).symm

lemma hasGradient_negate (part : Gradients d I size site e)
    (ann : (Expr.unary .negate e ty).IsAnnotated site) (onOpd : (d.derive e).outcome = .ok r)
    (built : unaryOf .negate r = .ok q) : HasGradient I d.name size (.unary .negate e ty) q := by
  refine ⟨part.changes.negate ann onOpd built, .inl ?_⟩
  obtain ⟨own, -, rfl⟩ := unaryOf_eq_ok.mp built
  rfl

/-- An operation of the four. -/
lemma hasGradient_binary (wise : Value.IsComponentWise op) (left : Gradients d I size site l)
    (right : Gradients d I size site r) (ann : (Expr.binary op l r ty).IsAnnotated site)
    (nz : (Expr.binary op l r ty).DividesByNonzero I.withVectors)
    (der : (d.byKind (.binary op l r ty)).outcome = .ok q) :
    HasGradient I d.name size (.binary op l r ty) q := by
  have rat := IsRational.binary ty wise left.rational right.rational
  have rows (k : Nat) (ins : (Ty.vec size).HasRow k) : ty.HasRow k :=
    Ty.hasRow_of_vec (rat.plain ann) ins
  have still (k : Nat) := Tangent.toward_still (u := u) d.name k
  have tyL := Ty.binary?_vec_left .multiply right.plain
  have tyR := Ty.binary?_vec_right .multiply left.plain
  have self : Ty.binary? op (.vec size) (.vec size) = some (.vec size) := Ty.binary?_self wise rfl
  rcases wise with rfl | rfl | rfl | rfl
  · simp only [byKind, Derivation.binary, bind_ok, add_eq_ok] at der
    obtain ⟨dl, onL, dr, onR, built⟩ := der
    exact ⟨left.changes.linear right.changes (.inl rfl) ann rows self onL onR built,
      .inl (splat?_binaryOf built)⟩
  · simp only [byKind, Derivation.binary, bind_ok, subtract_eq_ok] at der
    obtain ⟨dl, onL, dr, onR, built⟩ := der
    exact ⟨left.changes.linear right.changes (.inr rfl) ann rows self onL onR built,
      .inl (splat?_binaryOf built)⟩
  · have form := (product_form der).2
    refine ⟨left.changes.product right.changes still rows tyL tyR ann form, .inl ?_⟩
    cases form with
    | constantLeft _ _ built
    | constantRight _ _ built | both _ _ _ _ built => exact splat?_binaryOf built
  · have form := ratio_form der
    refine ⟨left.changes.ratio right.changes still rows tyL tyR ann
      (Ty.binary?_vec_left .divide right.plain) nz form, .inl ?_⟩
    cases form with
    | constantRight _ _ built => exact splat?_binaryOf built
    | constantLeft _ _ _ _ _ built =>
      obtain ⟨own, -, rfl⟩ := unaryOf_eq_ok.mp built
      rfl
    | both _ _ _ _ _ _ built => exact splat?_binaryOf built

/-- The variable itself. -/
lemma hasGradient_variable (vec : d.ty = .vec size)
    (decl : site.symbols.lookup d.name = some (.vec size))
    (ann : (Expr.ident name ty).IsAnnotated site) (moves : d.depends (.ident name ty))
    (der : d.one.outcome = .ok q) : HasGradient I d.name size (.ident name ty) q := by
  obtain rfl : name = d.name := by simpa [depends, mentions] using moves
  have fits : site.symbols.lookup d.name = some ty := ann.fits
  obtain rfl := Option.some.inj (decl.symm.trans fits)
  have found := one_eq_ok.mp der
  rw [vec] at found
  refine ⟨(Denotes.one rfl found).congr fun k ins => ?_, .inr (.inr found)⟩
  have unit : (Tangent.toward d.name k : Tangent u).speed d.name k = 1 := if_pos ⟨rfl, rfl⟩
  exact unit.symm.trans (I.slope_read_dual _ d.name rfl ins).symm

/-! ## From vectors to scalars -/

/-- A component of a vector that acts by component. -/
lemma hasGradient_component {pos : Nat} {whole db : Expr} (vec : d.ty = .vec size)
    (typed : e.ty = .vec size) (acts : e.ActsByComponent I d.name)
    (grad : HasGradient I d.name size e db)
    (same : pos < size.count → ∀ k, whole.gradientAt I d.name k
      = e.slopeAt I (.toward d.name k) pos)
    (der : (d.component db pos).outcome = .ok q) : HasGradient I d.name size whole q := by
  obtain ⟨size', picked, sized, ins, found, rfl⟩ := component_form der
  obtain rfl : size = size' := by
    rw [vec] at sized
    exact Option.some.inj sized
  have hasRow : (Ty.vec size).HasRow pos := Ty.hasRow_of_lt ins
  have denotes : Denotes I.withVectors Ty.float (fun _ => e.gradientAt I d.name pos) picked := by
    cases splat : db.splat? with
    | none =>
      rw [splat] at found
      exact grad.denotes.index ins found
    | some val =>
      rw [splat] at found
      obtain rfl : picked = _ := found
      exact grad.picked splat ins
  refine ⟨(Denotes.single denotes).congr fun k _ => ?_, .inl ?_⟩
  · rw [same ins k]
    by_cases here : k = pos
    · rw [if_pos here, here]
      rfl
    · rw [if_neg here]
      refine (acts e .root (by rw [typed]; rfl) k pos ?_ (Ne.symm here)).symm
      rw [typed]
      exact hasRow
  · cases size <;> exact splat?_call

/-- What a component is picked of is a vector. -/
lemma Gradients.ty_of_isVector (part : Gradients d I size site e)
    (isVec : e.ty.isVector) : e.ty = .vec size := by
  rcases part.plain with scal | typed
  · rw [scal] at isVec
    cases isVec
  · exact typed

lemma hasGradient_field (vec : d.ty = .vec size) (part : Gradients d I size site e)
    (ann : (Expr.field e name .float).IsAnnotated site)
    (der : (d.field ⟨e, d.derive e⟩ name).outcome = .ok q) :
    HasGradient I d.name size (.field e name .float) q := by
  have notSc : d.isScalar = false := by rw [isScalar, vec]; rfl
  obtain ⟨size', kind, swz, db, isVec, parsed, onBase, forms⟩ := field_form der
  have typed := part.ty_of_isVector (by rw [isVec]; rfl)
  rcases forms with ⟨scal, -⟩ | ⟨-, identity, -⟩ | ⟨-, -, pos, single, der⟩
  · cases notSc.symm.trans scal
  · -- A selector of all components does not give a float.
    have fits : fieldType e.ty name = .ok .float := ann.fits
    have cnt : swz.length = size'.count := by
      simpa [Swizzle.length] using congrArg List.length (beq_iff_eq.mp identity)
    have all : Dim.ofCount? size'.count = some size' := by cases size' <;> rfl
    have isVec' : e.ty.isVector := by rw [typed]; rfl
    rw [fieldType, if_pos isVec', parsed, isVec] at fits
    have sel : swz.resultType (.vector size' kind) = .ok .float := fits
    obtain ⟨_, _, -, -, same⟩ := Swizzle.resultType_eq_ok.mp sel
    rw [cnt, all] at same
    cases same
  · refine hasGradient_component vec typed part.acts (part.gradient onBase)
      (fun ins k => ?_) der
    have val := Value.field_single
      ((eval_ty (I.dual (.toward d.name k)).withVectors part.annotated).trans typed) parsed
      single ins
    rw [gradientAt, slopeAt, eval, val]
    rfl

lemma hasGradient_index {n : Int32} {own : Ty} (vec : d.ty = .vec size)
    (part : Gradients d I size site e)
    (der : (d.index ⟨e, d.derive e⟩ (.literal (.int n) own)).outcome = .ok q) :
    HasGradient I d.name size (.index e (.literal (.int n) own) ty) q := by
  have notSc : d.isScalar = false := by rw [isScalar, vec]; rfl
  obtain ⟨n', db, lit, isVec, nonneg, onBase, forms⟩ := index_form der
  obtain rfl : n = n' := by simpa [literal?] using lit
  have typed := part.ty_of_isVector isVec
  rcases forms with ⟨scal, -⟩ | ⟨-, der⟩
  · cases notSc.symm.trans scal
  · refine hasGradient_component vec typed part.acts (part.gradient onBase)
      (fun ins k => ?_) der
    have place := place?_int (u := u) nonneg
    have elt := Value.element?_vector
      ((eval_ty (I.dual (.toward d.name k)).withVectors part.annotated).trans typed) ins
    have val : (Expr.index e (.literal (.int n) own) ty).eval
        (I.dual (.toward d.name k)).withVectors
        = ⟨Ty.float, (e.eval (I.dual (.toward d.name k)).withVectors).entry n.toInt.toNat⟩ := by
      simp only [eval, Interpretation.index, place, Option.bind_some, elt]
    rw [gradientAt, slopeAt, val]
    rfl

lemma hasGradient_dot (vec : d.ty = .vec size) (left : Gradients d I size site l)
    (right : Gradients d I size site r)
    (ann : (Expr.call Builtin.dot.name [l, r] .float).IsAnnotated site)
    (der : (DerivativeRule.dot d [⟨l, d.derive l⟩, ⟨r, d.derive r⟩]).outcome = .ok q) :
    HasGradient I d.name size (.call Builtin.dot.name [l, r] .float) q := by
  have notSc : d.isScalar = false := by rw [isScalar, vec]; rfl
  have still (k : Nat) := Tangent.toward_still (u := u) d.name k
  simp only [DerivativeRule.dot, DerivativeRule.dotTerm, notSc, Bool.false_eq_true, if_false,
    bind_ok] at der
  obtain ⟨byFirst, fst, bySecond, snd, summed⟩ := der
  have sum1 : SumTo I.withVectors (.vec size)
      (fun k => l.gradientAt I d.name k * r.valueAt I (.toward d.name k) k) byFirst := by
    refine SumTo.termIf fst (fun found => ?_) fun indep k ins => ?_
    · simp only [bind_ok, multiply_eq_ok] at found
      obtain ⟨dl, onL, built⟩ := found
      exact (left.gradient onL).denotes.multiply right.changes.value built
        (Ty.binary?_vec_left .multiply right.plain)
    · rw [gradientAt, left.changes.still still indep k (left.changes.rows k ins), zero_mul]
  have sum2 : SumTo I.withVectors (.vec size)
      (fun k => l.valueAt I (.toward d.name k) k * r.gradientAt I d.name k) bySecond := by
    refine SumTo.termIf snd (fun found => ?_) fun indep k ins => ?_
    · simp only [bind_ok, multiply_eq_ok] at found
      obtain ⟨dr, onR, built⟩ := found
      exact left.changes.value.multiply (right.gradient onR).denotes built
        (Ty.binary?_vec_right .multiply left.plain)
    · rw [gradientAt, right.changes.still still indep k (right.changes.rows k ins),
        mul_zero]
  refine ⟨((sum1.append sum2).sum
    (fun zero => (denotes_zero_vec vec (.inl rfl) zero).2) summed).congr fun k ins => ?_, ?_⟩
  · obtain ⟨same, -⟩ := IsSmooth.dot_types ann rfl left.changes.smooth right.changes.smooth
    refine Eq.symm ((slopeAt_dot left.annotated k).trans ?_)
    rcases left.plain with scal | typed
    · -- The product of two scalars.
      have tyL := (eval_ty (I.dual (.toward d.name k)).withVectors left.annotated).trans scal
      have tyR := (eval_ty (I.dual (.toward d.name k)).withVectors right.annotated).trans
        (same.trans scal)
      have one : l.ty.componentCount?.getD 0 = 1 := by rw [scal]; rfl
      rw [one, Finset.sum_range_one]
      simp only [gradientAt, slopeAt, valueAt, Value.entry_spread tyL k, Value.entry_spread tyR k]
    · -- Only the row of the component changes.
      have isVectorL : l.ty.isVector := by rw [typed]; rfl
      have isVectorR : r.ty.isVector := by rw [same, typed]; rfl
      have cnt : l.ty.componentCount?.getD 0 = size.count := by rw [typed]; rfl
      rw [cnt]
      refine Finset.sum_eq_single k (fun i mem differs => ?_) fun outside => ?_
      · have insideL : l.ty.HasRow i := Ty.hasRow_of_lt (cnt ▸ Finset.mem_range.mp mem)
        rw [left.acts l .root isVectorL k i insideL differs,
          right.acts r .root isVectorR k i (same ▸ insideL) differs, zero_mul, mul_zero, add_zero]
      · exact absurd (Finset.mem_range.mpr (ins size rfl)) outside
  · have none : ∀ term ∈ byFirst ++ bySecond, term.splat? = none := by
      intro term mem
      rcases List.mem_append.mp mem with mem | mem
      · refine (Ensures.termIf (P := fun t => t.splat? = none) (fun t found => ?_) _ fst).1 term mem
        simp only [bind_ok, multiply_eq_ok] at found
        obtain ⟨dl, -, built⟩ := found
        exact splat?_binaryOf built
      · refine (Ensures.termIf (P := fun t => t.splat? = none) (fun t found => ?_) _ snd).1 term mem
        simp only [bind_ok, multiply_eq_ok] at found
        obtain ⟨dr, -, built⟩ := found
        exact splat?_binaryOf built
    rcases sum_keeps (fun _ _ built => splat?_binaryOf built) none summed with none | zero
    · exact .inl none
    · exact .inr (.inl (denotes_zero_vec (I := I.withVectors) vec (.inl rfl) zero).1)

/-! ## Whole trees -/

/-- The derivative by a vector of a rational tree in which vectors act by component denotes the
gradient. -/
lemma hasGradient_derive (vec : d.ty = .vec size)
    (decl : site.symbols.lookup d.name = some (.vec size)) (rat : e.IsRational size)
    (ann : e.IsAnnotated site) (acts : e.ActsByComponent I d.name)
    (nz : e.DivisorsNonzero I.withVectors) (der : (d.derive e).outcome = .ok q) :
    HasGradient I d.name size e q := by
  induction e using Expr.induction generalizing q with
  | node e parts =>
  rcases derive_form der with ⟨moves, der⟩ | ⟨moves, der⟩
  · exact hasGradient_zero vec rat ann moves der
  have part {p : Expr} (mem : p ∈ e.children) (rat : p.IsRational size) :
      Gradients d I size site p :=
    ⟨rat, ann.part mem, acts.part mem, fun onPart =>
      parts p mem rat (ann.part mem) (acts.part mem) (nz.part mem) onPart⟩
  cases rat with
  | literal x own => cases moves
  | scalar name
  | vector name => exact hasGradient_variable vec decl ann moves der
  | negate ty rat =>
    simp only [byKind, bind_ok, negate_eq_ok] at der
    obtain ⟨du, onOpd, built⟩ := der
    exact hasGradient_negate (part mem_operand rat) ann onOpd built
  | binary ty wise ratL ratR =>
    exact hasGradient_binary wise (part mem_left ratL) (part mem_right ratR) ann (nz _ .root) der
  | swizzle name rat =>
    exact hasGradient_field vec (part mem_base rat) ann der
  | index n own ty rat => exact hasGradient_index vec (part mem_indexed rat) der
  | dot ratL ratR =>
    simp only [byKind, Derivation.call, Builtin.not_type, Builtin.ofName?_name,
      DerivativeRule.of?, deriveAll] at der
    exact hasGradient_dot vec (part mem_first ratL) (part mem_second ratR) ann der

/-- Differentiation by a vector gives the gradient of every rational scalar in which vectors act by
component, which they do where no vector is combined with a scalar that mentions the variable: each
component of the derivative is the slope of the scalar in dual arithmetic, in which that component
of the variable is `x + ε` and everything else is constant, provided that no component of a divisor
is zero. -/
theorem eval_derive_eq_gradient (I : Interpretation (.exact u)) {e₀ : Expr}
    (vector : d.ty = .vec size) (declared : site.symbols.lookup d.name = some (.vec size))
    (inferred : e₀.infer site = .ok e) (rational : e.IsRational size) (scalar : e.ty = .float)
    (nonzero : e.DivisorsNonzero I.withVectors) (derived : (d.derive e).outcome = .ok r) :
    (e.IsUnmixed d.name → e.ActsByComponent I d.name)
      ∧ (e.ActsByComponent I d.name → r.ty = .vec size
        ∧ ∀ k, k < size.count → (r.eval I.withVectors).part k
          = (e.eval (I.dual (.toward d.name k)).withVectors).slope.part 0) := by
  have annotated := isAnnotated_of_infer inferred
  refine ⟨fun unmixed => unmixed.actsByComponent rational annotated, fun acts => ?_⟩
  have gradient := hasGradient_derive vector declared rational annotated acts nonzero derived
  refine ⟨gradient.denotes.annotation, fun k inside => ?_⟩
  have typed := (eval_ty (I.dual (.toward d.name k)).withVectors annotated).trans scalar
  have hasRow : (Ty.vec size).HasRow k := Ty.hasRow_of_lt inside
  rw [gradient.denotes.part k hasRow, gradientAt, slopeAt, Value.entry_spread typed k]
  exact (Value.part_slope (by rw [typed]; rfl) (Ty.hasRow_zero _)).symm

/-- A dot product with a scaled vector, over a component: `dot(p * y, p) / p.y`. -/
theorem eval_derive_dot_over_component :
    let u : Unspecified := ⟨fun a => a, fun a => a, fun a => a, 0, 0⟩
    let I : Interpretation (.exact u) := .filled u 3
    let d : Derivation := ⟨"p", .vec .three, .empty⟩
    let symbols := ((SymbolTable.empty.declare "p" (.vec .three)).2.declare "y" Ty.float).2
    let vec (entries : List Expr) := Expr.call "vec3" entries (.vec .three)
    let ones := vec [.ofLiteral (.ofDouble .float (Floating.unit false))]
    let one := Expr.ofFloat ((((Floating.unit false : Double).convert Format.single).convert
      Format.double).convert Format.single)
    let zero := Expr.ofFloat .zero
    let times (a b : Expr) := Expr.binary .multiply a b (.vec .three)
    let p := Expr.ident "p" (.vec .three)
    let y := Expr.ident "y" .float
    let dot := Expr.call "dot" [times p y, p] .float
    let below := Expr.field p "y" .float
    let e := Expr.binary .divide dot below .float
    let r := Expr.binary .divide (.binary .subtract
      (times (.binary .add (times (times ones y) p) (times (times p y) ones) (.vec .three)) below)
      (times dot (vec [zero, one, zero])) (.vec .three))
      (.binary .multiply below below .float) (.vec .three)
    e.infer ⟨symbols, none⟩ = .ok e ∧ (d.derive e).outcome = .ok r
      ∧ ∀ k, k < 3 → (r.eval I.withVectors).part k
        = (e.eval (I.dual (.toward "p" k)).withVectors).slope.part 0 := by
  intro u I d symbols vec ones one zero times p y dot below e r
  have inferred : e.infer ⟨symbols, none⟩ = .ok e := by rfl
  have derived : (d.derive e).outcome = .ok r := by
    subst d
    rfl
  have rational : e.IsRational .three :=
    .binary _ .divide
      (.dot (.binary _ .multiply (.vector "p") (.scalar "y")) (.vector "p"))
      (.swizzle "y" (.vector "p"))
  have walk {P : Expr → Prop} (root : P e) (product : P (times p y))
      (call : ∀ name args ty, P (.call name args ty)) (field : ∀ e name ty, P (.field e name ty))
      (ident : ∀ name ty, P (.ident name ty)) : ∀ s, Expr.Within s e → P s := by
    have leaf {name : String} {ty : Ty} := Expr.within_leaf rfl (ident name ty)
    have component : ∀ s, Expr.Within s below → P s :=
      Expr.within_single rfl (field _ _ _) leaf
    exact Expr.within_pair rfl root
      (Expr.within_pair rfl (call _ _ _) (Expr.within_pair rfl product leaf leaf) leaf) component
  have nonzero : e.DivisorsNonzero I.withVectors :=
    walk (fun _ _ => (by decide : (3 : Rat) ≠ 0)) trivial (fun _ _ _ => trivial)
      (fun _ _ _ => trivial) (fun _ _ => trivial)
  have unmixed : e.IsUnmixed d.name :=
    walk (fun isVector => by cases isVector) (fun _ => ⟨nofun, fun _ => rfl⟩)
      (fun _ _ _ => trivial) (fun _ _ _ => trivial) (fun _ _ => trivial)
  have right := eval_derive_eq_gradient I rfl rfl inferred rational rfl nonzero derived
  exact ⟨inferred, derived, (right.2 (right.1 unmixed)).2⟩

/-- The gradient of `(p * p.x).y` lacks the change with `p.x`: it is zero there and should be
`p.y`. -/
theorem eval_derive_mixed_component :
    let u : Unspecified := ⟨fun a => a, fun a => a, fun a => a, 0, 0⟩
    let I : Interpretation (.exact u) := .filled u 3
    let d : Derivation := ⟨"p", .vec .three, .empty⟩
    let vec (entries : List Expr) := Expr.call "vec3" entries (.vec .three)
    let ones := vec [.ofLiteral (.ofDouble .float (Floating.unit false))]
    let one := Expr.ofFloat ((((Floating.unit false : Double).convert Format.single).convert
      Format.double).convert Format.single)
    let zero := Expr.ofFloat .zero
    let times (a b : Expr) := Expr.binary .multiply a b (.vec .three)
    let p := Expr.ident "p" (.vec .three)
    let x := Expr.field p "x" .float
    let e := Expr.field (times p x) "y" .float
    let change := Expr.binary .add (times ones x) (times p (vec [one, zero, zero])) (.vec .three)
    let r := vec [zero, .index change (.ofInt 1) .float, zero]
    e.infer ⟨(SymbolTable.empty.declare "p" (.vec .three)).2, none⟩ = .ok e
      ∧ (d.derive e).outcome = .ok r ∧ (r.eval I.withVectors).part 0 = 0
      ∧ (e.eval (I.dual (.toward "p" 0)).withVectors).slope.part 0 = 3 := by
  intro u I d vec ones one zero times p x e change r
  refine ⟨rfl, ?_, ?_, ?_⟩
  · subst d
    rfl
  · exact (Denotes.literalZero (I := I.withVectors)).part 0 (Ty.hasRow_zero _)
  · -- The product of `p.y`, which stands still, and of `p.x`.
    have product := Arithmetic.slope_multiply (u := u) (Arithmetic.moving 3 0) (Arithmetic.moving 3 1)
    simp only [Arithmetic.slope_moving, Arithmetic.standard_moving, zero_mul, zero_add,
      mul_one] at product
    exact product

end Derivation

end ShaderAlgebra
