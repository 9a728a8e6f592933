import ShaderAlgebra.Proofs.Calculus.Denotation
import ShaderAlgebra.Proofs.Calculus.Smooth

/-!
# Derivatives by a scalar

The derivative of a smooth expression by a `float` variable denotes the slope of its value: what the
derivative evaluates to in exact arithmetic is the coefficient of `ε` when the expression is
evaluated in dual arithmetic, where the variable is `x + ε` and every other variable stands still.

The proof goes by the root, with one lemma to a kind of root. Each takes the slopes of the parts for
granted, reads off the form of the derivative what it denotes, and compares that with the slope of
the operation on dual numbers.
-/

namespace ShaderAlgebra

open List Arithmetic Logged Value Interpretation

variable {op : BinaryOp}

/-! ## Names of derivative functions -/

lemma toList_derivativeName (param function : String) : (derivativeName param function).toList
      = 'd' :: 'd' :: (param.toList ++ '_' :: function.toList) := by
  simp [derivativeName]

/-- No derivative function has the name of a type. -/
lemma ofName?_derivativeName (param function : String) :
    Ty.ofName? (derivativeName param function) = none := by
  have lts := toList_derivativeName param function
  have oth (name : String) (differs : name.toList.take 2 ≠ ['d', 'd']) :
      derivativeName param function ≠ name := by
    rintro rfl
    rw [lts] at differs
    exact differs rfl
  rw [Ty.ofName?, if_neg (oth "void" (by decide)), if_neg (oth "bool" (by decide)),
    if_neg (oth "int" (by decide)), if_neg (oth "float" (by decide)), lts]
  rfl

/-- No derivative function has the name of a built-in function. -/
lemma builtin_ofName?_derivativeName (param function : String) :
    Builtin.ofName? (derivativeName param function) = none := by
  refine find?_eq_none.mpr fun bi _ same => ?_
  have lts := toList_derivativeName param function
  rw [← beq_iff_eq.mp same] at lts
  have snd := congrArg (fun cs => cs.take 2) lts
  cases bi <;> simp [Builtin.name] at snd

/-! ## What is assumed -/

namespace Tangent

variable {u : Unspecified}

/-- Only the variable changes. -/
def along (name : String)
    (gain : (function : String) → (position : Nat) → (arguments : List (Value (.exact u))) → Rat) :
    Tangent u :=
  ⟨fun other _ => if other = name then 1 else 0, gain⟩

def MovesOnly (t : Tangent u) (name : String) : Prop :=
  ∀ other row, other ≠ name → t.speed other row = 0

/-- The derivative functions of the catalogue denote what the functions gain from their
arguments. -/
def IsKnownTo (t : Tangent u) (catalogue : Catalogue) (I : Interpretation (.exact u)) : Prop :=
  ∀ {function : String} {parameters : List String} {position : Nat} {parameter : String},
    catalogue.parameters? function = some parameters → parameters[position]? = some parameter →
      ∀ arguments, I.function (derivativeName parameter function) arguments .float
        = t.gain function position arguments

end Tangent

namespace Expr

variable {u : Unspecified}

/-- If the root is a quotient, no component of the divisor is zero. -/
def DividesByNonzero (I : Interpretation (.exact u)) : Expr → Prop
  | .binary .divide _ right _ => ∀ row, right.ty.HasRow row → (right.eval I).part row ≠ 0
  | _ => True

/-- If the root is a component of a vector at a constant index, the index is one of its
positions. -/
def IndexesInside : Expr → Prop
  | .index base (.literal (.int n) _) _ =>
    ∀ size kind, base.ty = .vector size kind → 0 ≤ n.toInt ∧ n.toInt < size.count
  | _ => True

/-- No component of a divisor is zero. -/
def DivisorsNonzero (I : Interpretation (.exact u)) (e : Expr) : Prop :=
  ∀ s, Within s e → s.DividesByNonzero I

/-- Every constant index is in range. -/
def IndicesInRange (e : Expr) : Prop := ∀ s, Within s e → s.IndexesInside

lemma DivisorsNonzero.part {I : Interpretation (.exact u)} {e part : Expr}
    (nz : e.DivisorsNonzero I) (mem : part ∈ e.children) : part.DivisorsNonzero I :=
  fun s ins => nz s (.part mem ins)

lemma IndicesInRange.part {e part : Expr} (inRange : e.IndicesInRange)
    (mem : part ∈ e.children) : part.IndicesInRange :=
  fun s ins => inRange s (.part mem ins)

/-! ## Values and slopes -/

/-- What an entry of the tree is. -/
def valueAt (I : Interpretation (.exact u)) (t : Tangent u) (e : Expr) (row : Nat) : Rat :=
  Arithmetic.standard ((e.eval (I.dual t).withVectors).entry row)

/-- How fast an entry of the tree changes. -/
def slopeAt (I : Interpretation (.exact u)) (t : Tangent u) (e : Expr) (row : Nat) : Rat :=
  Arithmetic.slope ((e.eval (I.dual t).withVectors).entry row)

section

variable {I : Interpretation (.exact u)} {t : Tangent u} {ts : Nat → Tangent u}
  {catalogue : Catalogue} {site : Site} {e l r : Expr} {ty : Ty} {row : Nat}

/-- A smooth tree denotes what its entries are, whichever way each of them moves. -/
lemma IsSmooth.denotes (I : Interpretation (.exact u)) (ts : Nat → Tangent u)
    (smooth : e.IsSmooth catalogue) (ann : e.IsAnnotated site) :
    Denotes I.withVectors e.ty (fun row => e.valueAt I (ts row) row) e := by
  refine ⟨rfl, smooth.generic ann, eval_ty _ ann, fun row ins => ?_⟩
  refine (smooth.eval_standard I (ts row) ann).entry row ?_
  rw [eval_ty _ ann]
  exact ins

/-- The derivative has the type of the tree and denotes its slopes. -/
structure HasSlope (I : Interpretation (.exact u)) (t : Tangent u) (e r : Expr) : Prop where
  annotation : r.ty = e.ty
  value : Value.Entrywise Arithmetic.slope (e.eval (I.dual t).withVectors) (r.eval I.withVectors)

lemma HasSlope.denotes (slope : HasSlope I t e r) (ann : e.IsAnnotated site) :
    Denotes I.withVectors e.ty (e.slopeAt I t) r := by
  have typed := eval_ty (I.dual t).withVectors ann
  refine ⟨slope.annotation, typed ▸ slope.value.generic, slope.value.ty.trans typed, ?_⟩
  intro row ins
  exact slope.value.entry row (typed.symm ▸ ins)

lemma Denotes.hasSlope (denotes : Denotes I.withVectors e.ty (e.slopeAt I t) r)
    (ann : e.IsAnnotated site) : HasSlope I t e r := by
  have typed := eval_ty (I.dual t).withVectors ann
  refine ⟨denotes.annotation, denotes.value.trans typed.symm, typed.symm ▸ denotes.generic, ?_⟩
  intro row ins
  exact denotes.part row (typed ▸ ins)

/-! ## Operators -/

/-- The entries of an operation on smooth trees. -/
lemma entry_eval_binary (wise : Value.IsComponentWise op) (smoothL : l.IsSmooth catalogue)
    (smoothR : r.IsSmooth catalogue) (ann : (Expr.binary op l r ty).IsAnnotated site)
    (ins : ty.HasRow row) :
    ((Expr.binary op l r ty).eval (I.dual t).withVectors).entry row
      = (Arithmetic.dual u).real.combine op ((l.eval (I.dual t).withVectors).entry row)
        ((r.eval (I.dual t).withVectors).entry row) := by
  have annL := ann.part mem_left
  have annR := ann.part mem_right
  have tyL := eval_ty (I.dual t).withVectors annL
  have tyR := eval_ty (I.dual t).withVectors annR
  refine entry_binary wise (tyL.symm ▸ smoothL.generic annL)
    (tyR.symm ▸ smoothR.generic annR) ?_ ins
  rw [tyL, tyR]
  exact ann.fits

lemma slopeAt_negate (smooth : e.IsSmooth catalogue)
    (ann : (Expr.unary .negate e ty).IsAnnotated site) (ins : e.ty.HasRow row) :
    (Expr.unary .negate e ty).slopeAt I t row = -e.slopeAt I t row := by
  have typed := eval_ty (I.dual t).withVectors (ann.part mem_operand)
  have gen := smooth.generic (ann.part mem_operand)
  exact congrArg Arithmetic.slope (entry_negate (typed.symm ▸ gen) (typed.symm ▸ ins))

/-- The slope of a product. -/
lemma slopeAt_multiply (smoothL : l.IsSmooth catalogue) (smoothR : r.IsSmooth catalogue)
    (ann : (Expr.binary .multiply l r ty).IsAnnotated site) (ins : ty.HasRow row) :
    (Expr.binary .multiply l r ty).slopeAt I t row
      = l.slopeAt I t row * r.valueAt I t row + l.valueAt I t row * r.slopeAt I t row := by
  rw [slopeAt, entry_eval_binary .multiply smoothL smoothR ann ins, slope_multiply]
  rfl

/-- The slope of a quotient. -/
lemma slopeAt_divide (smoothL : l.IsSmooth catalogue) (smoothR : r.IsSmooth catalogue)
    (ann : (Expr.binary .divide l r ty).IsAnnotated site) (ins : ty.HasRow row)
    (nz : r.valueAt I t row ≠ 0) :
    (Expr.binary .divide l r ty).slopeAt I t row
      = (l.slopeAt I t row * r.valueAt I t row - l.valueAt I t row * r.slopeAt I t row)
        / (r.valueAt I t row * r.valueAt I t row) := by
  rw [slopeAt, entry_eval_binary .divide smoothL smoothR ann ins]
  exact slope_divide nz

end

end Expr

/-! ## Roots -/

lemma Ty.derivative?_float {ty : Ty} (gen : ty.isGenericFloat) :
    ty.derivative? .float = some ty := by
  obtain ⟨size, rfl⟩ := isGenericFloat_iff.mp gen
  cases size <;> rfl

namespace Derivation

open ShaderAlgebra.Expr Derived

/-- A smooth part of what is differentiated, whose derivative has the given type and denotes how fast
each entry changes if the variables move in the direction of its row. -/
structure Changes (d : Derivation) {u : Unspecified} (I : Interpretation (.exact u))
    (ts : Nat → Tangent u) (site : Site) (e : Expr) (ty : Ty) : Prop where
  smooth : e.IsSmooth d.catalogue
  annotated : e.IsAnnotated site
  rows : ∀ row, ty.HasRow row → e.ty.HasRow row
  slope : ∀ {r}, (d.derive e).outcome = .ok r →
    Denotes I.withVectors ty (fun row => e.slopeAt I (ts row) row) r

section Directions

variable {u : Unspecified} {I : Interpretation (.exact u)} {ts : Nat → Tangent u} {d : Derivation}
  {site : Site} {e l r q dl dr : Expr} {ty own tl tr : Ty}

/-- A smooth tree that does not mention the variable does not change. -/
lemma slopeAt_eq_zero {t : Tangent u} (still : t.MovesOnly d.name) (smooth : e.IsSmooth d.catalogue)
    (ann : e.IsAnnotated site) (indep : d.depends e = false) {row : Nat} (ins : e.ty.HasRow row) :
    e.slopeAt I t row = 0 := by
  refine smooth.eval_still I ann (fun name row ment => still name row ?_) ins
  rintro rfl
  exact absurd ment (by simpa [depends] using indep)

namespace Changes

variable (left : Changes d I ts site l tl) (right : Changes d I ts site r tr)

include left in
lemma value : Denotes I.withVectors l.ty (fun row => l.valueAt I (ts row) row) l :=
  left.smooth.denotes I ts left.annotated

include left in
lemma still (still : ∀ k, (ts k).MovesOnly d.name) (indep : d.depends l = false) (row : Nat)
    (ins : l.ty.HasRow row) : l.slopeAt I (ts row) row = 0 :=
  slopeAt_eq_zero (still row) left.smooth left.annotated indep ins

include left in
lemma negate (ann : (Expr.unary .negate l own).IsAnnotated site)
    (onOpd : (d.derive l).outcome = .ok r) (built : unaryOf .negate r = .ok q) :
    Denotes I.withVectors tl (fun row => (Expr.unary .negate l own).slopeAt I (ts row) row) q :=
  ((left.slope onOpd).negate built).congr fun row ins =>
    (slopeAt_negate left.smooth ann (left.rows row ins)).symm

include left right

/-- A sum or a difference. -/
lemma linear (linear : op = .add ∨ op = .subtract) (ann : (Expr.binary op l r own).IsAnnotated site)
    (rows : ∀ row, ty.HasRow row → own.HasRow row) (typed : Ty.binary? op tl tr = some ty)
    (onL : (d.derive l).outcome = .ok dl) (onR : (d.derive r).outcome = .ok dr)
    (built : binaryOf op dl dr = .ok q) :
    Denotes I.withVectors ty (fun row => (Expr.binary op l r own).slopeAt I (ts row) row) q := by
  have wise : Value.IsComponentWise op := linear.elim .inl fun isDiff => .inr (.inl isDiff)
  refine ((left.slope onL).binary wise (right.slope onR) built typed).congr fun row ins => ?_
  have entry := entry_eval_binary (I := I) (t := ts row) wise left.smooth right.smooth ann
    (rows row ins)
  rcases linear with rfl | rfl <;> exact (congrArg Arithmetic.slope entry).symm

variable (still : ∀ k, (ts k).MovesOnly d.name) (rows : ∀ row, ty.HasRow row → own.HasRow row)
  (tyL : Ty.binary? .multiply tl r.ty = some ty)
  (tyR : Ty.binary? .multiply l.ty tr = some ty)

include still rows tyL tyR

lemma product (ann : (Expr.binary .multiply l r own).IsAnnotated site)
    (form : ProductForm d ⟨l, d.derive l⟩ ⟨r, d.derive r⟩ q) :
    Denotes I.withVectors ty
      (fun row => (Expr.binary .multiply l r own).slopeAt I (ts row) row) q :=
  (form.denotes left.value right.value left.slope right.slope (left.still still)
    (right.still still) tyL tyR).congr fun row ins =>
      (slopeAt_multiply left.smooth right.smooth ann (rows row ins)).symm

/-- A quotient whose divisor is not zero. -/
lemma ratio (ann : (Expr.binary .divide l r own).IsAnnotated site)
    (absorbed : Ty.binary? .divide ty r.ty = some ty)
    (nz : (Expr.binary .divide l r own).DividesByNonzero I.withVectors)
    (form : RatioForm d ⟨l, d.derive l⟩ ⟨r, d.derive r⟩ q) :
    Denotes I.withVectors ty
      (fun row => (Expr.binary .divide l r own).slopeAt I (ts row) row) q := by
  have nonzeroAt (row : Nat) (ins : r.ty.HasRow row) : r.valueAt I (ts row) row ≠ 0 :=
    right.value.part row ins ▸ nz row ins
  have denotes := form.denotes left.value right.value left.slope right.slope (left.still still)
    (right.still still) tyL tyR absorbed nonzeroAt
  refine denotes.congr fun row ins => ?_
  have insideR := ((Ty.binary?_generic .divide denotes.generic
    right.value.generic absorbed).2 row ins).2
  exact (slopeAt_divide left.smooth right.smooth ann (rows row ins) (nonzeroAt row insideR)).symm

end Changes

end Directions

variable {u : Unspecified} {I : Interpretation (.exact u)} {t : Tangent u} {d : Derivation}
  {site : Site} {e l r q : Expr} {ty : Ty} {function : String} {args : List Expr}
  {parameters : List String}

/-- A smooth part whose derivative has its slope. -/
abbrev Slopes (d : Derivation) (I : Interpretation (.exact u)) (t : Tangent u) (site : Site)
    (e : Expr) : Prop :=
  Changes d I (fun _ => t) site e e.ty

/-- The derivative of a constant that a sum without terms is. -/
lemma denotes_zero (scalar : d.ty = .float) {val : Ty} (gen : val.isGenericFloat)
    (der : (d.zero val).outcome = .ok q) : Denotes I val (fun _ => 0) q := by
  obtain ⟨own, typed, found⟩ := zero_eq_ok.mp der
  rw [scalar, Ty.derivative?_float gen] at typed
  obtain rfl := Option.some.inj typed
  exact Denotes.zero gen found

lemma hasSlope_zero (scalar : d.ty = .float) (still : t.MovesOnly d.name)
    (smooth : e.IsSmooth d.catalogue) (ann : e.IsAnnotated site) (indep : d.depends e = false)
    (der : (d.zero e.ty).outcome = .ok q) : HasSlope I t e q := by
  have zero := denotes_zero (I := I.withVectors) scalar (smooth.generic ann) der
  refine (zero.congr fun row ins => ?_).hasSlope ann
  exact (slopeAt_eq_zero still smooth ann indep ins).symm

/-- An operation of the four. -/
lemma hasSlope_binary (wise : Value.IsComponentWise op)
    (still : t.MovesOnly d.name) (left : Slopes d I t site l)
    (right : Slopes d I t site r) (ann : (Expr.binary op l r ty).IsAnnotated site)
    (nz : (Expr.binary op l r ty).DividesByNonzero I.withVectors)
    (der : (d.byKind (.binary op l r ty)).outcome = .ok q) :
    HasSlope I t (.binary op l r ty) q := by
  have genL := left.value.generic
  have genR := right.value.generic
  have typed : Ty.binary? op l.ty r.ty = some ty := ann.fits
  have prod := (Ty.binary?_congr wise .multiply genL genR).trans typed
  have still' (_ : Nat) := still
  refine Denotes.hasSlope (e := .binary op l r ty) ?_ ann
  rcases wise with rfl | rfl | rfl | rfl
  · simp only [byKind, Derivation.binary, bind_ok, add_eq_ok] at der
    obtain ⟨dl, onL, dr, onR, built⟩ := der
    exact left.linear right (.inl rfl) ann (fun _ => id) typed onL onR built
  · simp only [byKind, Derivation.binary, bind_ok, subtract_eq_ok] at der
    obtain ⟨dl, onL, dr, onR, built⟩ := der
    exact left.linear right (.inr rfl) ann (fun _ => id) typed onL onR built
  · exact left.product right still' (fun _ => id) typed typed ann (product_form der).2
  · exact left.ratio right still' (fun _ => id) prod prod ann
      (Ty.binary?_absorb .divide .divide genL genR typed) nz (ratio_form der)

/-! ## Variables, parts and constructors -/

/-- The variable itself. -/
lemma hasSlope_variable {name : String} (scalar : d.ty = .float)
    (decl : site.symbols.lookup d.name = some .float) (unit : t.speed d.name 0 = 1)
    (ann : (Expr.ident name ty).IsAnnotated site) (moves : d.depends (.ident name ty))
    (der : d.one.outcome = .ok q) : HasSlope I t (.ident name ty) q := by
  obtain rfl : name = d.name := by simpa [depends, mentions] using moves
  have fits : site.symbols.lookup d.name = some ty := ann.fits
  obtain rfl := Option.some.inj (decl.symm.trans fits)
  have found := one_eq_ok.mp der
  rw [scalar] at found
  refine ((Denotes.one rfl found).congr fun row _ => ?_).hasSlope ann
  exact unit.symm.trans (slope_moving _ _).symm

lemma hasSlope_field {name : String} {db : Expr}
    (ann : (Expr.field e name ty).IsAnnotated site) (slope : HasSlope I t e db)
    (built : db.fieldOf name = .ok q) : HasSlope I t (.field e name ty) q := by
  obtain ⟨own, typed, rfl⟩ := fieldOf_eq_ok.mp built
  have fits : fieldType e.ty name = .ok ty := ann.fits
  rw [slope.annotation, fits] at typed
  cases typed
  have tyV : fieldType (e.eval (I.dual t).withVectors).ty name = .ok ty := by
    rw [eval_ty _ (ann.part mem_base), fits]
  exact ⟨rfl, slope.value.field tyV⟩

lemma place?_int {n : Int32} (nonneg : 0 ≤ n.toInt) :
    (Value.ofLiteral (.int n) : Value (.dual u)).place? = some n.toInt.toNat := by
  show n.toInt.toNat? = _
  cases found : n.toInt with
  | ofNat i => rfl
  | negSucc i => simp [found] at nonneg

/-- A component at a constant index that is in range. -/
lemma hasSlope_index {n : Int32} {own : Ty} {db : Expr}
    (ann : (Expr.index e (.literal (.int n) own) ty).IsAnnotated site)
    (inRange : (Expr.index e (.literal (.int n) own) ty).IndexesInside) (isVec : e.ty.isVector)
    (slope : HasSlope I t e db) (built : db.indexOf (.literal (.int n) own) = .ok q) :
    HasSlope I t (.index e (.literal (.int n) own) ty) q := by
  obtain ⟨own', typed, rfl⟩ := indexOf_eq_ok.mp built
  have fits : e.ty.element? = some ty := ann.fits.2
  rw [slope.annotation, fits] at typed
  obtain rfl := Option.some.inj typed
  have typedE := eval_ty (I.dual t).withVectors (ann.part mem_indexed)
  refine ⟨rfl, slope.value.index (typedE.symm ▸ fits) rfl fun outside => ?_⟩
  -- The index is in range, so nothing beyond the vector is read.
  obtain ⟨size, kind, vec⟩ : ∃ size kind, e.ty = .vector size kind := by
    cases typed : e.ty <;> simp_all [Ty.isVector]
  obtain ⟨nonneg, below⟩ := inRange size kind vec
  generalize e.eval (I.dual t).withVectors = v at typedE outside
  obtain ⟨vTy, data⟩ := v
  obtain rfl : vTy = .vector size kind := typedE.trans vec
  have place := place?_int (u := u) nonneg
  have lt : n.toInt.toNat < size.count := by omega
  simp only [eval, place, Option.bind_some, Value.element?, lt, dite_true, reduceCtorEq] at outside

lemma hasSlope_scalar {arg : Expr} (constructor : Ty.ofName? function = some .float)
    (isSc : arg.ty = .float) (ann : (Expr.call function [arg] ty).IsAnnotated site)
    (slope : HasSlope I t arg q) : HasSlope I t (.call function [arg] ty) q := by
  obtain ⟨rfl, -⟩ := ann.fits.constructor constructor
  have typed := (eval_ty (I.dual t).withVectors (ann.part mem_first)).trans isSc
  have same : (Expr.call function [arg] .float).eval (I.dual t).withVectors
      = arg.eval (I.dual t).withVectors := by
    simp only [eval, evalAll, Interpretation.call, constructor]
    exact construct_float typed
  exact ⟨slope.annotation.trans isSc, same ▸ slope.value⟩

lemma hasSlope_vector {size : Dim} {rs : List Expr}
    (constructor : Ty.ofName? function = some (.vec size))
    (ann : (Expr.call function args ty).IsAnnotated site)
    (slopes : Forall₂ (HasSlope I t) args rs) :
    HasSlope I t (.call function args ty) (.call (Ty.vec size).text rs (.vec size)) := by
  obtain ⟨rfl, -⟩ := ann.fits.constructor constructor
  have named : Ty.ofName? (Ty.vec size).text = some (.vec size) := ofName?_text_vector size .float
  refine ⟨rfl, ?_⟩
  simp only [eval, evalAll_eq, Interpretation.call, constructor, named]
  refine Value.Entrywise.construct rfl rfl ?_
  rw [forall₂_map_left_iff, forall₂_map_right_iff]
  exact slopes.imp fun _ _ slope => slope.value

/-! ## Dot product, cross product and mixture -/

lemma isScalar_of_float (scalar : d.ty = .float) : d.isScalar := by
  rw [isScalar, scalar]
  rfl

/-- The slope of a dot product. -/
lemma slopeAt_dot (ann : l.IsAnnotated site) (row : Nat) :
    (Expr.call Builtin.dot.name [l, r] .float).slopeAt I t row
      = ∑ i ∈ Finset.range (l.ty.componentCount?.getD 0),
        (l.slopeAt I t i * r.valueAt I t i + l.valueAt I t i * r.slopeAt I t i) := by
  rw [slopeAt, eval, evalAll, evalAll, evalAll, withVectors_dot, Value.dot,
    entry_float, slope_sum, eval_ty (I.dual t).withVectors ann]
  refine Finset.sum_congr rfl fun i _ => ?_
  exact slope_multiply _ _

lemma hasSlope_dot (scalar : d.ty = .float) (still : t.MovesOnly d.name) (gen : ty.isGenericFloat)
    (left : Slopes d I t site l) (right : Slopes d I t site r)
    (ann : (Expr.call Builtin.dot.name [l, r] ty).IsAnnotated site)
    (der : (DerivativeRule.dot d [⟨l, d.derive l⟩, ⟨r, d.derive r⟩]).outcome = .ok q) :
    HasSlope I t (.call Builtin.dot.name [l, r] ty) q := by
  obtain ⟨same, rfl⟩ := IsSmooth.dot_types ann gen left.smooth right.smooth
  have ins {i : Nat} (mem : i ∈ Finset.range (l.ty.componentCount?.getD 0)) : l.ty.HasRow i :=
    Ty.hasRow_of_lt (Finset.mem_range.mp mem)
  simp only [DerivativeRule.dot, DerivativeRule.dotTerm, isScalar_of_float scalar, if_true,
    bind_ok] at der
  obtain ⟨byFirst, fst, bySecond, snd, summed⟩ := der
  have sum1 : SumTo I.withVectors Ty.float (fun _ => ∑ i ∈ Finset.range
      (l.ty.componentCount?.getD 0), l.slopeAt I t i * r.valueAt I t i) byFirst := by
    refine SumTo.termIf fst (fun found => ?_) fun indep row _ => ?_
    · simp only [bind_ok, outcome_pure, Except.ok.injEq] at found
      obtain ⟨dl, onL, rfl⟩ := found
      exact (left.slope onL).dot (same ▸ right.value)
    · refine Finset.sum_eq_zero fun i mem => ?_
      rw [left.still (fun _ => still) indep i (ins mem), zero_mul]
  have sum2 : SumTo I.withVectors Ty.float (fun _ => ∑ i ∈ Finset.range
      (l.ty.componentCount?.getD 0), l.valueAt I t i * r.slopeAt I t i) bySecond := by
    refine SumTo.termIf snd (fun found => ?_) fun indep row _ => ?_
    · simp only [bind_ok, outcome_pure, Except.ok.injEq] at found
      obtain ⟨dr, onR, rfl⟩ := found
      exact left.value.dot (same ▸ right.slope onR)
    · refine Finset.sum_eq_zero fun i mem => ?_
      rw [right.still (fun _ => still) indep i (same.symm ▸ ins mem), mul_zero]
  refine Denotes.hasSlope (e := .call Builtin.dot.name [l, r] .float)
    (((sum1.append sum2).sum (denotes_zero scalar rfl) summed).congr fun row _ => ?_)
    ann
  rw [slopeAt_dot left.annotated, Finset.sum_add_distrib]

lemma slope_crossEntry (v w : Value (.dual u)) (row : Nat) :
    Arithmetic.slope (Value.crossEntry v w row)
      = (Arithmetic.slope (v.entry ((row + 1) % 3)) * Arithmetic.standard (w.entry ((row + 2) % 3))
          + Arithmetic.standard (v.entry ((row + 1) % 3))
            * Arithmetic.slope (w.entry ((row + 2) % 3)))
        - (Arithmetic.slope (v.entry ((row + 2) % 3))
            * Arithmetic.standard (w.entry ((row + 1) % 3))
          + Arithmetic.standard (v.entry ((row + 2) % 3))
            * Arithmetic.slope (w.entry ((row + 1) % 3))) :=
  congrArg₂ (fun x y : Rat => x - y) (slope_multiply _ _) (slope_multiply _ _)

lemma slope_mix {v v' w : Value (.dual u)} (mixes : Ty.MixesTo v.ty v'.ty w.ty ty) {row : Nat}
    (ins : ty.HasRow row) :
    Arithmetic.slope ((v.mix v' w).entry row)
      = (Arithmetic.slope (v.entry row) * (1 - Arithmetic.standard (w.entry row))
          + Arithmetic.standard (v.entry row) * (0 - Arithmetic.slope (w.entry row)))
        + (Arithmetic.slope (v'.entry row) * Arithmetic.standard (w.entry row)
          + Arithmetic.standard (v'.entry row) * Arithmetic.slope (w.entry row)) := by
  rw [entry_mix mixes ins]
  exact congrArg₂ (fun x y : Rat => x + y) (slope_multiply _ _) (slope_multiply _ _)

section

variable (scalar : d.ty = .float) (still : t.MovesOnly d.name)
  (gen : ty.isGenericFloat = true) (left : Slopes d I t site l) (right : Slopes d I t site r)

include scalar still gen left right

lemma hasSlope_cross (ann : (Expr.call Builtin.cross.name [l, r] ty).IsAnnotated site)
    (der : (DerivativeRule.cross d [⟨l, d.derive l⟩, ⟨r, d.derive r⟩]).outcome = .ok q) :
    HasSlope I t (.call Builtin.cross.name [l, r] ty) q := by
  obtain ⟨tyL, tyR, rfl⟩ := IsSmooth.cross_types ann gen left.smooth right.smooth
  have stillL (indep : d.depends l = false) (row : Nat) : l.slopeAt I t (row % 3) = 0 :=
    left.still (fun _ => still) indep _ (tyL.symm ▸ Ty.hasRow_mod row)
  have stillR (indep : d.depends r = false) (row : Nat) : r.slopeAt I t (row % 3) = 0 :=
    right.still (fun _ => still) indep _ (tyR.symm ▸ Ty.hasRow_mod row)
  simp only [DerivativeRule.cross, isScalar_of_float scalar, Bool.not_true, Bool.false_eq_true,
    if_false, bind_ok, tyL] at der
  obtain ⟨byFirst, fst, bySecond, snd, summed⟩ := der
  have sum1 : SumTo I.withVectors (.vec .three) (fun row =>
      l.slopeAt I t ((row + 1) % 3) * r.valueAt I t ((row + 2) % 3)
        - l.slopeAt I t ((row + 2) % 3) * r.valueAt I t ((row + 1) % 3)) byFirst := by
    refine SumTo.termIf fst (fun found => ?_) fun indep row _ => ?_
    · simp only [bind_ok, outcome_pure, Except.ok.injEq] at found
      obtain ⟨dl, onL, rfl⟩ := found
      exact (tyL ▸ left.slope onL).cross (tyR ▸ right.value)
    · rw [stillL indep, stillL indep, zero_mul, zero_mul, sub_zero]
  have sum2 : SumTo I.withVectors (.vec .three) (fun row =>
      l.valueAt I t ((row + 1) % 3) * r.slopeAt I t ((row + 2) % 3)
        - l.valueAt I t ((row + 2) % 3) * r.slopeAt I t ((row + 1) % 3)) bySecond := by
    refine SumTo.termIf snd (fun found => ?_) fun indep row _ => ?_
    · simp only [bind_ok, outcome_pure, Except.ok.injEq] at found
      obtain ⟨dr, onR, rfl⟩ := found
      exact (tyL ▸ left.value).cross (tyR ▸ right.slope onR)
    · rw [stillR indep, stillR indep, mul_zero, mul_zero, sub_zero]
  refine Denotes.hasSlope (e := .call Builtin.cross.name [l, r] (.vec .three))
    (((sum1.append sum2).sum (denotes_zero scalar rfl) summed).congr fun row here => ?_)
    ann
  have val : (Expr.call Builtin.cross.name [l, r] (.vec .three)).slopeAt I t row
      = Arithmetic.slope (Value.crossEntry (l.eval (I.dual t).withVectors)
        (r.eval (I.dual t).withVectors) row) := by
    rw [slopeAt, eval, evalAll, evalAll, evalAll, withVectors_cross, entry_cross here]
  rw [val, slope_crossEntry]
  simp only [slopeAt, valueAt]
  ring

lemma hasSlope_mix {w : Expr} (wt : Slopes d I t site w)
    (ann : (Expr.call Builtin.mix.name [l, r, w] ty).IsAnnotated site)
    (der : (DerivativeRule.mix d
      [⟨l, d.derive l⟩, ⟨r, d.derive r⟩, ⟨w, d.derive w⟩]).outcome = .ok q) :
    HasSlope I t (.call Builtin.mix.name [l, r, w] ty) q := by
  have mixes := IsSmooth.mix_types ann gen left.smooth right.smooth wt.smooth
  obtain ⟨one, scaled, genW, -⟩ := mixes.steps
  have tyL := mixes.1
  have tyR := mixes.2.1
  have insideW {row : Nat} (ins : ty.HasRow row) : w.ty.HasRow row :=
    ((Ty.binary?_generic .multiply gen genW scaled).2 row ins).2
  simp only [DerivativeRule.mix, bind_ok] at der
  obtain ⟨byFirst, fst, bySecond, snd, byWeight, third, summed⟩ := der
  have sum1 : SumTo I.withVectors ty
      (fun row => l.slopeAt I t row * (1 - w.valueAt I t row)) byFirst := by
    refine SumTo.termIf fst (fun found => ?_) fun indep row ins => ?_
    · simp only [bind_ok, subtract_eq_ok, multiply_eq_ok] at found
      obtain ⟨dl, onL, rest, diff, built⟩ := found
      have complement := Denotes.literalOne.subtract wt.value diff one
      exact (tyL ▸ left.slope onL).multiply complement built scaled
    · rw [left.still (fun _ => still) indep row (tyL.symm ▸ ins), zero_mul]
  have sum2 : SumTo I.withVectors ty
      (fun row => r.slopeAt I t row * w.valueAt I t row) bySecond := by
    refine SumTo.termIf snd (fun found => ?_) fun indep row ins => ?_
    · simp only [bind_ok, multiply_eq_ok] at found
      obtain ⟨dr, onR, built⟩ := found
      exact (tyR ▸ right.slope onR).multiply wt.value built scaled
    · rw [right.still (fun _ => still) indep row (tyR.symm ▸ ins), zero_mul]
  have sumWeight : SumTo I.withVectors ty
      (fun row => (r.valueAt I t row - l.valueAt I t row) * w.slopeAt I t row) byWeight := by
    refine SumTo.termIf third (fun found => ?_) fun indep row ins => ?_
    · simp only [bind_ok, subtract_eq_ok, multiply_eq_ok] at found
      obtain ⟨span, diff, dw, onWeight, built⟩ := found
      have across := (tyR ▸ right.value).subtract (tyL ▸ left.value) diff
        (Ty.binary?_self (.inr (.inl rfl)) gen)
      exact across.multiply (wt.slope onWeight) built scaled
    · rw [wt.still (fun _ => still) indep row (insideW ins), mul_zero]
  have empty : (d.zero l.ty).outcome = .ok q → Denotes I.withVectors ty (fun _ => 0) q := by
    rw [tyL]
    exact denotes_zero scalar gen
  refine Denotes.hasSlope (e := .call Builtin.mix.name [l, r, w] ty)
    ((((sum1.append sum2).append sumWeight).sum empty summed).congr fun row ins => ?_)
    ann
  have mixes' : Ty.MixesTo (l.eval (I.dual t).withVectors).ty (r.eval (I.dual t).withVectors).ty
      (w.eval (I.dual t).withVectors).ty ty := by
    rw [eval_ty _ left.annotated, eval_ty _ right.annotated, eval_ty _ wt.annotated]
    exact mixes
  have val : (Expr.call Builtin.mix.name [l, r, w] ty).slopeAt I t row
      = Arithmetic.slope (((l.eval (I.dual t).withVectors).mix (r.eval (I.dual t).withVectors)
        (w.eval (I.dual t).withVectors)).entry row) := by
    rw [slopeAt, eval, evalAll, evalAll, evalAll, evalAll, withVectors_mix _ (ty_mix mixes')]
  rw [val, slope_mix mixes' ins]
  simp only [slopeAt, valueAt]
  ring

end

/-! ## The chain rule -/

/-- What a sum of terms amounts to, where no term is zero. -/
def AmountsTo (I : Interpretation (.exact u)) (total : Option Expr) (x : Rat) : Prop :=
  match total with
  | none => x = 0
  | some sum => Denotes I .float (fun _ => x) sum

/-- A derivative function denotes what its function gains. -/
lemma denotes_gain {param : String} {pos : Nat} (knows : t.IsKnownTo d.catalogue I)
    (known : d.catalogue.parameters? function = some parameters)
    (found : parameters[pos]? = some param) (args : List Expr) :
    Denotes I.withVectors .float (fun _ => t.gain function pos (args.map (eval I.withVectors)))
      (.call (derivativeName param function) args .float) := by
  have val : (Expr.call (derivativeName param function) args .float).eval I.withVectors
      = ⟨.float, I.function (derivativeName param function)
          (args.map (eval I.withVectors)) .float⟩ := by
    rw [eval, evalAll_eq]
    exact I.withVectors_call (ofName?_derivativeName param function)
      (builtin_ofName?_derivativeName param function) _ _
  refine ⟨rfl, rfl, by rw [val], fun row _ => ?_⟩
  rw [val]
  exact knows known found _

/-- The terms from a position on amount to the rate from that position on. -/
lemma chainTerms_amountsTo {rest : List String} {others : List Expr} {pos : Nat}
    {tot res : Option Expr} {x : Rat}
    (still : t.MovesOnly d.name) (knows : t.IsKnownTo d.catalogue I)
    (known : d.catalogue.parameters? function = some parameters)
    (offset : parameters.drop pos = rest) (slopes : ∀ a ∈ others, Slopes d I t site a)
    (scalars : ∀ a ∈ others, a.ty = .float) (cnt : rest.length = others.length)
    (amt : AmountsTo I.withVectors tot x)
    (der : (d.chainTerms function args tot
      (rest.zip (others.map fun a => ⟨a, d.derive a⟩))).outcome = .ok res) :
    AmountsTo I.withVectors res (x + t.rate function (args.map (eval I.withVectors))
      pos (others.map (eval (I.dual t).withVectors))) := by
  induction others generalizing rest pos tot x with
  | nil =>
    obtain rfl : rest = [] := eq_nil_of_length_eq_zero cnt
    obtain rfl : tot = res := by simpa [chainTerms] using der
    simpa [Tangent.rate] using amt
  | cons a others ih =>
    cases rest with
    | nil => cases cnt
    | cons param rest =>
      have own := slopes a mem_cons_self
      have scalarA := scalars a mem_cons_self
      have next : parameters.drop (pos + 1) = rest := by
        rw [← drop_drop, offset]
        rfl
      have found : parameters[pos]? = some param := by
        rw [← head?_drop, offset]
        rfl
      have later {tot : Option Expr} {x : Rat} := @ih rest (pos + 1) tot x next
        (fun b mem => slopes b (mem_cons_of_mem _ mem))
        (fun b mem => scalars b (mem_cons_of_mem _ mem)) (Nat.succ.inj cnt)
      rw [map_cons, Tangent.rate, ← add_assoc]
      rcases chainTerms_cons der with ⟨indep, der⟩ | ⟨da, term, sum, -, -, onArg, built, added, der⟩
      · refine later ?_ der
        show AmountsTo _ tot (x + _ * a.slopeAt I t 0)
        rw [own.still (fun _ => still) indep 0 (Ty.hasRow_zero _), mul_zero, add_zero]
        exact amt
      · refine later ?_ der
        have slope := own.slope onArg
        rw [scalarA] at slope
        have prod := ((denotes_gain knows known found args).multiply slope built
          (Ty.binary?_self .multiply rfl)).congr
          (g := fun _ => t.gain function pos (args.map (eval I.withVectors))
            * a.slopeAt I t 0) fun row _ => by
              rw [slopeAt, entry_spread ((eval_ty _ own.annotated).trans scalarA) row]; rfl
        cases tot with
        | none =>
          obtain rfl : sum = term := added
          obtain rfl : x = 0 := amt
          exact prod.congr fun _ _ => (zero_add _).symm
        | some tot => exact Denotes.add amt prod added (Ty.binary?_self (.inl rfl) rfl)

/-- A call of a function that the chain rule knows. -/
lemma hasSlope_function (scalar : d.ty = .float)
    (still : t.MovesOnly d.name) (knows : t.IsKnownTo d.catalogue I)
    (notTy : Ty.ofName? function = none) (notBi : Builtin.ofName? function = none)
    (known : d.catalogue.parameters? function = some parameters)
    (slopes : ∀ a ∈ args, Slopes d I t site a) (scalars : ∀ a ∈ args, a.ty = .float)
    (ann : (Expr.call function args .float).IsAnnotated site)
    (der : (d.chain function parameters (args.map fun a => ⟨a, d.derive a⟩) .float).outcome
      = .ok q) : HasSlope I t (.call function args .float) q := by
  obtain ⟨cnt, tot, terms, res⟩ := chain_form der
  have expressions : (args.map fun a => (⟨a, d.derive a⟩ : Operand)).map (·.expr)
      = args := by simp [Function.comp_def]
  rw [expressions] at terms
  have nothing : AmountsTo I.withVectors none 0 := rfl
  have start : parameters.drop 0 = parameters := rfl
  have amt := chainTerms_amountsTo still knows known start slopes scalars
    (by simpa using cnt) nothing terms
  rw [zero_add] at amt
  -- The rate is the slope of the call.
  have stds : (args.map (eval (I.dual t).withVectors)).map Value.standard
      = args.map (eval I.withVectors) :=
    map_standard_of_entrywise (forall₂_eval fun a mem =>
      (slopes a mem).smooth.eval_standard I t (ann.part mem))
  have rate : (Expr.call function args .float).slopeAt I t
      = fun _ => t.rate function (args.map (eval I.withVectors)) 0
        (args.map (eval (I.dual t).withVectors)) := by
    funext row
    rw [slopeAt, eval, evalAll_eq, withVectors_call _ notTy notBi, ← stds]
    exact slope_moving _ _
  refine Denotes.hasSlope (e := .call function args .float) ?_ ann
  rw [rate]
  rcases res with rfl | ⟨rfl, der⟩
  · exact amt
  · exact (denotes_zero scalar rfl der).congr fun _ _ => Eq.symm amt

/-! ## Whole trees -/

/-- The derivative by a scalar of every smooth tree has the tree's slope. -/
lemma hasSlope_derive (scalar : d.ty = .float) (decl : site.symbols.lookup d.name = some .float)
    (unit : t.speed d.name 0 = 1) (still : t.MovesOnly d.name) (knows : t.IsKnownTo d.catalogue I)
    (smooth : e.IsSmooth d.catalogue) (ann : e.IsAnnotated site) (inRange : e.IndicesInRange)
    (nz : e.DivisorsNonzero I.withVectors) (der : (d.derive e).outcome = .ok q) :
    HasSlope I t e q := by
  have isSc := isScalar_of_float scalar
  induction e using Expr.induction generalizing q with
  | node e parts =>
  rcases derive_form der with ⟨moves, der⟩ | ⟨moves, der⟩
  · exact hasSlope_zero scalar still smooth ann moves der
  have slope {p dp : Expr} (mem : p ∈ e.children) (smooth : p.IsSmooth d.catalogue)
      (onPart : (d.derive p).outcome = .ok dp) : HasSlope I t p dp :=
    parts p mem smooth (ann.part mem) (inRange.part mem) (nz.part mem) onPart
  have part {p : Expr} (mem : p ∈ e.children) (smooth : p.IsSmooth d.catalogue) :
      Slopes d I t site p :=
    ⟨smooth, ann.part mem, fun _ => id, fun onPart =>
      (slope mem smooth onPart).denotes (ann.part mem)⟩
  cases smooth with
  | literal x own => cases moves
  | ident name gen => exact hasSlope_variable scalar decl unit ann moves der
  | @negate opd ty smooth =>
    simp only [byKind, bind_ok, negate_eq_ok] at der
    obtain ⟨du, onOpd, built⟩ := der
    obtain rfl : opd.ty = ty := Ty.unary?_eq ann.fits
    exact Denotes.hasSlope (e := .unary .negate opd opd.ty)
      ((part mem_operand smooth).negate ann onOpd built) ann
  | binary ty wise smoothL smoothR =>
    exact hasSlope_binary wise still (part mem_left smoothL) (part mem_right smoothR) ann
      (nz _ .root) der
  | scalar ty constructor isF smooth =>
    simp only [byKind, Derivation.call, constructor, deriveAll] at der
    exact hasSlope_scalar constructor isF ann (slope mem_first smooth der)
  | vector ty constructor smooth =>
    simp only [byKind, Derivation.call, constructor, deriveAll_eq] at der
    rcases construction_form der with ⟨oth, -⟩ | ⟨-, -, rs, all, rfl⟩
    · cases oth
    · rw [derivatives_eq_ok, forall₂_map_left_iff] at all
      refine hasSlope_vector constructor ann (forall₂_iff_zip.mpr ⟨all.length_eq, ?_⟩)
      intro a da paired
      have mem := (of_mem_zip paired).1
      exact slope mem (smooth a mem) ((forall₂_iff_zip.mp all).2 paired)
  | swizzle name ty smooth =>
    obtain ⟨size, kind, swz, db, -, -, onBase, forms⟩ := field_form der
    rcases forms with ⟨-, built⟩ | ⟨notSc, -⟩ | ⟨notSc, -⟩
    · exact hasSlope_field ann (slope mem_base smooth onBase) built
    all_goals cases isSc.symm.trans notSc
  | index n own ty smooth =>
    obtain ⟨n', db, -, isVec, -, onBase, forms⟩ := index_form der
    rcases forms with ⟨-, built⟩ | ⟨notSc, -⟩
    · exact hasSlope_index ann (inRange _ .root) isVec (slope mem_indexed smooth onBase)
        built
    · cases isSc.symm.trans notSc
  | dot gen smoothL smoothR =>
    simp only [byKind, Derivation.call, Builtin.not_type, Builtin.ofName?_name,
      DerivativeRule.of?, deriveAll] at der
    exact hasSlope_dot scalar still gen (part mem_first smoothL) (part mem_second smoothR) ann der
  | cross gen smoothL smoothR =>
    simp only [byKind, Derivation.call, Builtin.not_type, Builtin.ofName?_name,
      DerivativeRule.of?, deriveAll] at der
    exact hasSlope_cross scalar still gen (part mem_first smoothL) (part mem_second smoothR) ann der
  | mix gen smoothL smoothR smoothW =>
    simp only [byKind, Derivation.call, Builtin.not_type, Builtin.ofName?_name,
      DerivativeRule.of?, deriveAll] at der
    exact hasSlope_mix scalar still gen (part mem_first smoothL) (part mem_second smoothR)
      (part mem_third smoothW) ann der
  | function notTy notBi known scalars smooth =>
    simp only [byKind, Derivation.call, notTy, notBi, known, deriveAll_eq] at der
    exact hasSlope_function scalar still knows notTy notBi known
      (fun a mem => part mem (smooth a mem)) scalars ann der

/-- Differentiation by a `float` variable is correct. The derivative of a smooth expression has the
type of the expression, and its value is the slope of the expression in dual arithmetic, in which
the variable is `x + ε` and all other variables are constant, provided that no component of a
divisor is zero and that the derivative functions denote partial derivatives. -/
theorem eval_derive_eq_slope (I : Interpretation (.exact u))
    {gain : String → Nat → List (Value (.exact u)) → Rat} {e₀ : Expr} (scalar : d.ty = .float)
    (declared : site.symbols.lookup d.name = some .float) (inferred : e₀.infer site = .ok e)
    (smooth : e.IsSmooth d.catalogue) (inRange : e.IndicesInRange)
    (knows : (Tangent.along d.name gain).IsKnownTo d.catalogue I)
    (nonzero : e.DivisorsNonzero I.withVectors) (derived : (d.derive e).outcome = .ok r) :
    r.ty = e.ty
      ∧ r.eval I.withVectors = (e.eval (I.dual (.along d.name gain)).withVectors).slope := by
  have annotated := isAnnotated_of_infer inferred
  have unit : (Tangent.along d.name gain).speed d.name 0 = 1 := if_pos rfl
  have still : (Tangent.along d.name gain).MovesOnly d.name := fun _ _ other => if_neg other
  have slope := hasSlope_derive scalar declared unit still knows smooth annotated inRange nonzero
    derived
  exact ⟨slope.annotation, slope.value.eq_map⟩

end Derivation

/-- An interpretation in which every variable and every result of a function is filled with one
number. -/
def Interpretation.filled (u : Unspecified) (x : Rat) : Interpretation (.exact u) where
  read := fun _ ty =>
    (Value.build ty fun kind _ _ => (Arithmetic.exact u).convert .float kind x).dataAs ty
  function := fun _ _ ty =>
    (Value.build ty fun kind _ _ => (Arithmetic.exact u).convert .float kind x).dataAs ty
  beyond := fun _ _ ty => Value.zeroData ty

namespace Derivation

/-- The quotient rule, a dot product of constructed vectors and the chain rule in one:
`dot(vec2(x, y), vec2(g(x), 2.0)) / y`. -/
theorem eval_derive_dot_chain :
    let u : Unspecified := ⟨fun a => a, fun a => a, fun a => a, 0, 0⟩
    let I : Interpretation (.exact u) := .filled u 3
    let d : Derivation :=
      ⟨"x", .float, Catalogue.empty.register ⟨"g", [⟨"a", .float, .input⟩], .float, []⟩⟩
    let symbols := (((SymbolTable.empty.declare "x" Ty.float).2.declare "y" Ty.float).2
      ).declareFunction "g" ⟨[⟨"a", .float, .input⟩], .float⟩
    let x := Expr.ident "x" .float
    let y := Expr.ident "y" .float
    let one := Expr.ofLiteral (.ofDouble .float (Floating.unit false))
    let zero := Expr.ofLiteral (.ofDouble .float (Floating.zero false))
    let pair (first second : Expr) := Expr.call "vec2" [first, second] (.vec .two)
    let dot (first second : Expr) := Expr.call "dot" [first, second] .float
    let value := Expr.call "g" [x] .float
    let two := Expr.ofFloat .two
    let change := Expr.binary .multiply (.call "dda_g" [x] .float) one .float
    let e := Expr.binary .divide (dot (pair x y) (pair value two)) y .float
    let r := Expr.binary .divide (.binary .add (dot (pair one zero) (pair value two))
      (dot (pair x y) (pair change zero)) .float) y .float
    e.infer ⟨symbols, none⟩ = .ok e ∧ (d.derive e).outcome = .ok r
      ∧ r.eval I.withVectors
        = (e.eval (I.dual (.along "x" fun _ _ _ => 3)).withVectors).slope := by
  intro u I d symbols x y one zero pair dot value two change e r
  have inferred : e.infer ⟨symbols, none⟩ = .ok e := by rfl
  have derived : (d.derive e).outcome = .ok r := by rfl
  have smoothX : x.IsSmooth d.catalogue := .ident "x" rfl
  have smoothY : y.IsSmooth d.catalogue := .ident "y" rfl
  have smoothG : value.IsSmooth d.catalogue :=
    .function rfl rfl rfl (by simp [x, Expr.ty]) (by simpa using smoothX)
  have smoothPair {first second : Expr} (smooth : first.IsSmooth d.catalogue)
      (smooth' : second.IsSmooth d.catalogue) : (pair first second).IsSmooth d.catalogue :=
    .vector _ rfl (by simpa using ⟨smooth, smooth'⟩)
  have smooth : e.IsSmooth d.catalogue :=
    .binary _ .divide
      (.dot rfl (smoothPair smoothX smoothY) (smoothPair smoothG (.literal _ _))) smoothY
  -- Only the root is a division; its divisor `y` is three.
  have walk {P : Expr → Prop} (root : P e) (call : ∀ name args ty, P (.call name args ty))
      (ident : ∀ name ty, P (.ident name ty)) (literal : ∀ l ty, P (.literal l ty)) :
      ∀ s, Expr.Within s e → P s := by
    have leaf {name : String} {ty : Ty} := Expr.within_leaf rfl (ident name ty)
    exact Expr.within_pair rfl root (Expr.within_pair rfl (call _ _ _)
      (Expr.within_pair rfl (call _ _ _) leaf leaf) (Expr.within_pair rfl (call _ _ _)
        (Expr.within_single rfl (call _ _ _) leaf) (Expr.within_leaf rfl (literal _ _)))) leaf
  have inRange : e.IndicesInRange :=
    walk trivial (fun _ _ _ => trivial) (fun _ _ => trivial) (fun _ _ => trivial)
  have nonzero : e.DivisorsNonzero I.withVectors :=
    walk (fun _ _ => (by decide : (3 : Rat) ≠ 0)) (fun _ _ _ => trivial) (fun _ _ => trivial)
      (fun _ _ => trivial)
  have knows : (Tangent.along d.name fun _ _ _ => (3 : Rat)).IsKnownTo d.catalogue I :=
    fun _ _ _ => rfl
  exact ⟨inferred, derived,
    (eval_derive_eq_slope I rfl rfl inferred smooth inRange knows nonzero derived).2⟩

end Derivation

end ShaderAlgebra
