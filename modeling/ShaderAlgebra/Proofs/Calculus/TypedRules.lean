import ShaderAlgebra.Proofs.Calculus.Forms
import ShaderAlgebra.Proofs.Calculus.Types
import ShaderAlgebra.Proofs.Simplify.Typing

/-!
# Annotations of the derivatives of built-in functions

A derivative should be annotated, with the type of the derivative of its value
(`Derivation.Typed`). The rules of the table multiply the derivatives of arguments by trees that
spread over them (`Expr.Factor`) and add up, so the type of a derivative is that of its parts. Where
no place is given (`place`), only types count.

Some rules write the type of an argument on a call that they make. That is the type of the call only
if the argument has float components, which `Builtin.hasFloats` asks for; without it the derivative
of `pow(2, x)` calls the logarithm of an `int` an `int`.
-/

namespace ShaderAlgebra

open List Builtin Signature
open Value (IsComponentWise)

variable {op : BinaryOp}

namespace Expr

variable {e : Expr}

lemma ty_of_binaryOf {left right : Expr} (built : binaryOf op left right = .ok e) :
    Ty.binary? op left.ty right.ty = some e.ty := by
  obtain ⟨ty, typed, rfl⟩ := binaryOf_eq_ok.mp built
  exact typed

lemma ty_of_negate {opd : Expr} (built : unaryOf .negate opd = .ok e) : e.ty = opd.ty := by
  obtain ⟨ty, typed, rfl⟩ := unaryOf_eq_ok.mp built
  exact (Ty.unary?_eq typed).symm

end Expr

/-- A call of a built-in function fits, unless its name is that of a struct. -/
lemma Site.fits_builtin {site : Site} {builtin : Builtin} {args : List Expr} {ty : Ty}
    (free : site.symbols.structType? builtin.name = none)
    (res : builtin.resolve (args.map Expr.ty) = .ok ty) :
    site.Fits (.call builtin.name args ty) := by
  simpa only [Fits, callType_eq_ok, builtin.not_type, free, builtin.ofName?_name] using res

/-- No struct at the place, if there is one, has the name of the function. -/
def Builtin.IsFree (place : Option Site) (builtin : Builtin) : Prop :=
  ∀ site ∈ place, site.symbols.structType? builtin.name = none

/-- The tree is annotated at the place, if there is one. Without a place only its type counts. -/
def Expr.IsAnnotatedAt (place : Option Site) (e : Expr) : Prop := ∀ site ∈ place, e.IsAnnotated site

namespace Expr.IsAnnotatedAt

variable {place : Option Site} {left right r : Expr} {args : List Expr} {ty : Ty}

lemma ofLiteral (val : Literal) : (Expr.ofLiteral val).IsAnnotatedAt place :=
  fun site _ => ofLiteral_isAnnotated site val

lemma constant? {val : Double} (found : Expr.constant? ty val = some r) :
    r.IsAnnotatedAt place ∧ r.ty = ty :=
  ⟨fun site _ => (@constant?_isAnnotated site _ _ _ found).1,
    (@constant?_isAnnotated ⟨.empty, none⟩ _ _ _ found).2⟩

lemma binaryOf (atLeft : left.IsAnnotatedAt place) (atRight : right.IsAnnotatedAt place)
    (built : Expr.binaryOf op left right = .ok r) : r.IsAnnotatedAt place :=
  fun site mem => binaryOf_isAnnotated (atLeft site mem) (atRight site mem) built

lemma unaryOf {op : UnaryOp} (ann : left.IsAnnotatedAt place)
    (built : Expr.unaryOf op left = .ok r) : r.IsAnnotatedAt place :=
  fun site mem => unaryOf_isAnnotated (ann site mem) built

lemma call {fn : String} (fits : ∀ site ∈ place, site.Fits (.call fn args ty))
    (ann : ∀ x ∈ args, x.IsAnnotatedAt place) : (Expr.call fn args ty).IsAnnotatedAt place :=
  fun site mem => isAnnotated_iff.mpr ⟨fits site mem, fun x ins => ann x ins site mem⟩

lemma builtin {builtin : Builtin} (free : builtin.IsFree place)
    (res : place.isSome → builtin.resolve (args.map Expr.ty) = .ok ty)
    (ann : ∀ x ∈ args, x.IsAnnotatedAt place) :
    (Expr.call builtin.name args ty).IsAnnotatedAt place :=
  call (fun site mem => Site.fits_builtin (free site mem) (res (Option.isSome_of_mem mem))) ann

end Expr.IsAnnotatedAt

/-! ## Calls of built-in functions -/

namespace Builtin

open Ty

/-- Whether the arguments of a function have float components where its derivative needs it: on
these the rules write the type of an argument on a call that gives floats. -/
def hasFloats (builtin : Builtin) (arguments : List Ty) : Bool :=
  match builtin with
  | .sin | .cos | .tan | .sinh | .cosh | .tanh | .exp | .exp2 | .sqrt | .inverseSqrt | .pow
  | .length | .normalize | .cross => arguments.head?.any isGenericFloat
  | .distance | .smoothStep => arguments.any isGenericFloat
  | _ => true

variable {builtin : Builtin} {x y ty : Ty} {size : Option Dim} {kind : Kind}

lemma eq_float_of_isGenericFloat (typed : x = plain size kind)
    (floats : x.isGenericFloat) : kind = .float := by
  cases size <;> cases kind <;> simp_all [plain, isGenericFloat]

lemma exists_form {tys : List Ty} (res : builtin.resolve tys = .ok ty) :
    ∃ s ∈ builtin.signatures, s.resolve? tys = some ty :=
  exists_of_findSome?_eq_some (resolve_eq_ok.mp res)

/-- A function of one generic argument gives a value of its size. -/
lemma resolve_unary (gen : ∀ s ∈ builtin.signatures, s.parameters.length = 1 →
      s.parameters = [.generic] ∧ s.result = .generic)
    (res : builtin.resolve [x] = .ok ty) :
    ∃ size own kind, x = plain size own ∧ own.isNumeric ∧ ty = plain size kind := by
  obtain ⟨s, mem, found⟩ := exists_form res
  obtain ⟨ps, result⟩ := gen s mem (resolve?_eq_some.mp found).1.symm
  obtain ⟨size, kind, -, -, generics, -, given⟩ := resolve?_generic (by simp [ps]) found
  obtain ⟨own, rfl, num⟩ := generics x (by simp [ps])
  rw [result] at given
  exact ⟨size, own, kind, rfl, num, (Option.some.inj given).symm⟩

/-- A function of a generic float. -/
lemma resolve_float (form : builtin.signatures = onFloats [.generic] .generic)
    (size : Option Dim) : builtin.resolve [plain size .float] = .ok (plain size .float) := by
  rw [resolve_eq_ok, form]
  rcases size with _ | (_ | _ | _) <;> rfl

section

variable (num : kind.isNumeric = true)

include num

lemma resolve_sign (size : Option Dim) :
    Builtin.sign.resolve [plain size kind] = .ok (plain size kind) := by
  cases kind with
  | bool => cases num
  | _ => rcases size with _ | (_ | _ | _) <;> rfl

lemma resolve_dot_plain {oth : Kind} (num' : oth.isNumeric) (size : Option Dim) :
    Builtin.dot.resolve [plain size kind, plain size oth] = .ok .float := by
  cases kind with
  | bool => cases num
  | _ =>
    cases oth with
    | bool => cases num'
    | _ => rcases size with _ | (_ | _ | _) <;> rfl

lemma resolve_pow_plain (size : Option Dim) :
    Builtin.pow.resolve [plain size .float, plain size kind] = .ok (plain size .float) := by
  cases kind with
  | bool => cases num
  | _ => rcases size with _ | (_ | _ | _) <;> rfl

end

lemma resolve_clamp_float (size : Option Dim) :
    Builtin.clamp.resolve [plain size .float, plain none .float, plain none .float]
      = .ok (plain size .float) := by
  rcases size with _ | (_ | _ | _) <;> rfl

lemma resolve_length_float (size : Option Dim) :
    Builtin.length.resolve [plain size .float] = .ok .float := by
  rcases size with _ | (_ | _ | _) <;> rfl

lemma resolve_cross_vec3 (fst : x.convertsTo (vec .three)) (snd : y.convertsTo (vec .three)) :
    Builtin.cross.resolve [x, y] = .ok (vec .three) := by
  rw [resolve_eq_ok_of_form rfl, resolve?_eq_some]
  refine ⟨rfl, none, rfl, ?_, rfl⟩
  simpa [Signature.fits] using ⟨fst, snd⟩

end Builtin

/-! ## Factors -/

/-- A tree of numbers of the given size, which are floats if they are marked as such and there is a
place. -/
structure Expr.Sized (place : Option Site) (floats : Bool) (size : Option Dim) (e : Expr) : Prop where
  annotated : e.IsAnnotatedAt place
  typed : ∃ kind, e.ty = Ty.plain size kind ∧ kind.isNumeric = true
    ∧ (place.isSome = true → floats = true → kind = .float)

/-- A tree that may stand beside the derivative of a value of the given size. -/
def Expr.Factor (place : Option Site) (floats : Bool) (size : Option Dim) (f : Expr) : Prop :=
  ∃ own, (own = none ∨ own = size) ∧ Sized place floats own f

namespace Expr

open Ty Derived

variable {place : Option Site} {floats floats' : Bool} {size size' : Option Dim} {f g u v : Expr}
  {op : BinaryOp} {builtin : Builtin}

namespace Sized

lemma float (val : Single) : Sized place true none (DerivativeRule.float val) :=
  ⟨.ofLiteral _, .float, rfl, rfl, fun _ _ => rfl⟩

lemma weaken (sized : Sized place floats size u)
    (implies : place.isSome → floats' → floats) : Sized place floats' size u := by
  obtain ⟨kind, typed, num, isF⟩ := sized.typed
  exact ⟨sized.annotated, kind, typed, num, fun here marked => isF here (implies here marked)⟩

lemma marked (sized : Sized place floats size u) (isMarked : place.isSome → floats) :
    Sized place true size u :=
  sized.weaken fun here _ => isMarked here

/-- An operation gives floats if one side does. -/
lemma binary (fst : Sized place floats size f) (snd : Sized place floats' size' g)
    (wise : IsComponentWise op) :
    (node (binaryOf op f g)).Ensures (Sized place (floats || floats') (size.or size')) := by
  refine .node fun r built => ?_
  obtain ⟨kindF, typedF, -, isFloatF⟩ := fst.typed
  obtain ⟨kindG, typedG, -, isFloatG⟩ := snd.typed
  have tys := ty_of_binaryOf built
  rw [typedF, typedG] at tys
  obtain ⟨kind, tyR, unified, -⟩ := binary?_plain wise tys
  refine ⟨fst.annotated.binaryOf snd.annotated built, kind, tyR,
    (Kind.isNumeric_of_unify? unified).2.2, fun here marked => eq_float_of_unify? unified ?_⟩
  rw [Bool.or_eq_true] at marked
  exact marked.imp (isFloatF here) (isFloatG here)

/-- A call that is annotated with the type of its first argument. -/
lemma call (free : builtin.IsFree place) (sized : Sized place floats size u) {rest : List Expr}
    (ann : ∀ x ∈ rest, x.IsAnnotatedAt place)
    (resv : ∀ kind : Kind, kind.isNumeric → (floats → kind = .float) →
      builtin.resolve (plain size kind :: rest.map Expr.ty) = .ok (plain size kind)) :
    Sized place floats size (.call builtin.name (u :: rest) u.ty) := by
  obtain ⟨kind, typed, num, isF⟩ := sized.typed
  refine ⟨.builtin free (fun here => ?_) (forall_mem_cons.mpr ⟨sized.annotated, ann⟩),
    kind, typed, num, isF⟩
  simpa [typed] using resv kind num (isF here)

lemma apply (sized : Sized place true size u) (free : builtin.IsFree place)
    (form : builtin.signatures = Builtin.onFloats [.generic] .generic) :
    Sized place true size (DerivativeRule.apply builtin u) := by
  refine sized.call free (by simp) fun kind _ isF => ?_
  obtain rfl := isF rfl
  exact resolve_float form size

lemma floatCall_isAnnotated (free : Builtin.dot.IsFree place)
    (fst : Sized place floats size u) (snd : Sized place floats' size v) :
    (DerivativeRule.floatCall .dot [u, v]).IsAnnotatedAt place := by
  obtain ⟨kindU, tyU, numericU, -⟩ := fst.typed
  obtain ⟨kindV, tyV, numericV, -⟩ := snd.typed
  refine .builtin free (fun _ => ?_) (by simpa using ⟨fst.annotated, snd.annotated⟩)
  simpa [tyU, tyV] using resolve_dot_plain numericU numericV size

end Sized

namespace Factor

lemma own (sized : Sized place floats size u) : Factor place floats size u := ⟨size, .inr rfl, sized⟩

lemma ofFloat {e : Expr} (ann : e.IsAnnotatedAt place) (float : e.ty = .float) :
    Factor place true size e :=
  ⟨none, .inl rfl, ann, .float, float, rfl, fun _ _ => rfl⟩

lemma float (val : Single) : Factor place true size (DerivativeRule.float val) :=
  ⟨none, .inl rfl, .float val⟩

section

variable (factor : Factor place floats size f)

include factor

lemma annotated : f.IsAnnotatedAt place := by
  obtain ⟨own, -, sized⟩ := factor
  exact sized.annotated

lemma spreads : Spreads f.ty (plain size .float) := by
  obtain ⟨own, small, sized⟩ := factor
  obtain ⟨kind, typed, num, -⟩ := sized.typed
  exact ⟨own, size, kind, typed, num, rfl, small⟩

lemma map (keeps : ∀ {own}, Sized place floats own f → Sized place floats' own g) :
    Factor place floats' size g := by
  obtain ⟨own, small, sized⟩ := factor
  exact ⟨own, small, keeps sized⟩

end

lemma binary (fst : Factor place floats size f) (snd : Factor place floats' size g)
    (wise : IsComponentWise op) :
    (node (binaryOf op f g)).Ensures (Factor place (floats || floats') size) := by
  obtain ⟨ownF, smallF, sizedF⟩ := fst
  obtain ⟨ownG, smallG, sizedG⟩ := snd
  refine (sizedF.binary sizedG wise).imp fun r sized => ⟨ownF.or ownG, ?_, sized⟩
  rcases smallF with rfl | rfl <;> rcases smallG with rfl | rfl <;> simp

lemma negate (factor : Factor place floats size f) :
    (Derived.negate f).Ensures (Factor place floats size) := by
  refine .node fun r built => factor.map fun sized => ?_
  exact ⟨sized.annotated.unaryOf built, (ty_of_negate built).symm ▸ sized.typed⟩

lemma apply (factor : Factor place true size f) (free : builtin.IsFree place)
    (form : builtin.signatures = Builtin.onFloats [.generic] .generic) :
    Factor place true size (DerivativeRule.apply builtin f) :=
  factor.map fun sized => sized.apply free form

lemma sign (factor : Factor place floats size f) (free : Builtin.sign.IsFree place) :
    Factor place floats size (DerivativeRule.apply .sign f) :=
  factor.map fun {own} sized => sized.call free (by simp) fun _ num _ =>
    resolve_sign num own

lemma clamp (factor : Factor place true size f) (free : Builtin.clamp.IsFree place) :
    Factor place true size (.call Builtin.clamp.name
      [f, DerivativeRule.float .zero, DerivativeRule.float .one] f.ty) := by
  refine factor.map fun {own} sized => sized.call free ?_ fun kind _ isF => ?_
  · simpa using ⟨.ofLiteral _, .ofLiteral _⟩
  · obtain rfl := isF rfl
    exact resolve_clamp_float own

/-- The difference from a float has floats, also if the argument does not. -/
lemma oneMinusSquare (factor : Factor place floats size u) :
    (DerivativeRule.oneMinusSquare u).Ensures (Factor place true size) :=
  .bind (factor.binary factor .multiply) fun _ square => (Factor.float _).binary square .subtract

lemma unitRoot (factor : Factor place floats size u) (free : Builtin.sqrt.IsFree place) :
    (DerivativeRule.unitRoot u).Ensures (Factor place true size) :=
  .bind factor.oneMinusSquare fun _ inner => .pure (inner.apply free rfl)

end Factor

end Expr

/-! ## Derivatives of a type -/

/-- A tree is annotated, with the type of the derivative of a value of the given type. -/
structure Derivation.Typed (d : Derivation) (place : Option Site) (ty : Ty) (r : Expr) : Prop where
  annotated : r.IsAnnotatedAt place
  type : ty.derivative? d.ty = some r.ty

namespace Derivation.Typed

open Ty ShaderAlgebra.Expr Derived

variable {d : Derivation} {place : Option Site} {ty oth : Ty} {du dv f cond r : Expr}
  {op : BinaryOp} {floats : Bool} {size a : Option Dim} {kind kind' : Kind}

lemma congr (typed : d.Typed place ty r) (same : oth.derivative? d.ty = ty.derivative? d.ty) :
    d.Typed place oth r :=
  ⟨typed.annotated, same.trans typed.type⟩

lemma zero {val : Ty} : (d.zero val).Ensures (d.Typed place val) := by
  intro r der
  obtain ⟨ty, typed, found⟩ := zero_eq_ok.mp der
  obtain ⟨ann, rfl⟩ := IsAnnotatedAt.constant? found
  exact ⟨ann, typed⟩

lemma negate (typed : d.Typed place ty du) : (Derived.negate du).Ensures (d.Typed place ty) :=
  .node fun _ built => ⟨typed.annotated.unaryOf built, (ty_of_negate built).symm ▸ typed.type⟩

/-- A choice between trees, the second of which is a derivative. -/
lemma select (typed : d.Typed place ty dv) (ann : du.IsAnnotatedAt place)
    (isCond : cond.IsAnnotatedAt place ∧ cond.ty = .bool) :
    (Derived.select cond du dv).Ensures (d.Typed place ty) := by
  obtain ⟨isCond, bool⟩ := isCond
  refine .node fun r built => ?_
  obtain ⟨same, rfl⟩ := conditionalOf_eq_ok.mp built
  refine ⟨fun site mem => isAnnotated_iff.mpr ⟨⟨bool, same, rfl⟩, ?_⟩,
    typed.type.trans (congrArg some same.symm)⟩
  simpa [children] using ⟨isCond site mem, ann site mem, typed.annotated site mem⟩

section ByFloat

variable (byF : d.ty = plain a .float)
include byF

lemma type_plain (typed : d.Typed place (plain size kind) r) :
    (size = none ∨ a = none ∨ size = a) ∧ r.ty = plain (size.or a) .float := by
  have type := typed.type
  rwa [byF, derivative?_plain] at type

lemma type_vector {size : Dim} (typed : d.Typed place (.vector size kind) r) : r.ty = vec size := by
  have typed : d.Typed place (plain (some size) kind) r := typed
  exact (typed.type_plain byF).2

/-- The kind of the components does not count. -/
lemma resize (typed : d.Typed place (plain size kind) r) : d.Typed place (plain size kind') r :=
  typed.congr (byF ▸ derivative?_kind)

lemma spreads (typed : d.Typed place (plain size kind) r)
    (spreads : Spreads ty (plain size .float)) : Spreads ty r.ty := by
  rw [(typed.type_plain byF).2]
  exact spreads.trans_plain (by cases size <;> simp)

lemma isScalar_iff : d.isScalar ↔ a = none := by
  rw [isScalar, byF]
  cases a <;> simp [plain, Ty.isScalar]

/-- By a vector, the derivative of a vector has the type of that of a scalar. -/
lemma toFloat (typed : d.Typed place (plain size kind) r) (vec : d.isScalar = false) :
    d.Typed place .float r := by
  refine ⟨typed.annotated, ?_⟩
  obtain ⟨sizes, type⟩ := typed.type_plain byF
  have some : a ≠ none := fun scal => by simp [(isScalar_iff byF).mpr scal] at vec
  rw [byF, type]
  refine derivative?_scalar.mpr ?_
  cases size <;> cases a <;> simp_all

/-- By a scalar, the derivative has the size of the value. -/
lemma sized (typed : d.Typed place (plain size kind) r) (scal : d.isScalar) :
    Sized place true size r := by
  obtain rfl := (isScalar_iff byF).mp scal
  obtain ⟨-, type⟩ := typed.type_plain byF
  exact ⟨typed.annotated, .float, type.trans (by simp), rfl, fun _ _ => rfl⟩

section

variable (typed : d.Typed place (plain size kind) du) (factor : Factor place floats size f)

include typed factor

lemma scale : (multiply f du).Ensures (d.Typed place (plain size kind)) := by
  refine .node fun r built => ?_
  have spreads := typed.spreads byF factor.spreads
  have same := spreads.result_eq .multiply (.inl (ty_of_binaryOf built))
  exact ⟨factor.annotated.binaryOf typed.annotated built, same ▸ typed.type⟩

lemma beside (wise : IsComponentWise op) :
    (node (binaryOf op du f)).Ensures (d.Typed place (plain size kind)) := by
  refine .node fun r built => ?_
  have spreads := typed.spreads byF factor.spreads
  have same := spreads.result_eq wise (.inr (ty_of_binaryOf built))
  exact ⟨typed.annotated.binaryOf factor.annotated built, same ▸ typed.type⟩

end

/-- A derivative multiplied by a float. -/
lemma slope (typed : d.Typed place ty du) (ann : f.IsAnnotatedAt place)
    (float : f.ty = .float) : (multiply f du).Ensures (d.Typed place ty) := by
  refine .node fun r built => ⟨ann.binaryOf typed.annotated built, ?_⟩
  have tys := ty_of_binaryOf built
  have type := typed.type
  rw [byF] at type
  rw [typed.type]
  rw [float] at tys
  generalize r.ty = result, du.ty = derivative at tys type ⊢
  rcases cases_of_derivative? type with ⟨size, kind, -, -, rfl⟩ | ⟨cols, rows, -, -, rfl⟩
  · exact congrArg some ((spreads_scalar rfl _).result_eq .multiply (.inl tys)).symm
  · cases matrixOperation .multiply (.inr rfl) tys
    rfl

/-- Two derivatives of values of one type. -/
lemma join (fst : d.Typed place ty du) (snd : d.Typed place ty dv) (wise : IsComponentWise op)
    (oth : op ≠ .multiply) : (node (binaryOf op du dv)).Ensures (d.Typed place ty) := by
  refine .node fun r built => ⟨fst.annotated.binaryOf snd.annotated built, ?_⟩
  have tys := ty_of_binaryOf built
  have same : dv.ty = du.ty := Option.some.inj (snd.type.symm.trans fst.type)
  have type := fst.type
  rw [byF] at type
  rw [fst.type]
  rw [same] at tys
  generalize r.ty = result, du.ty = derivative at tys type ⊢
  rcases cases_of_derivative? type with ⟨size, kind, -, -, rfl⟩ | ⟨cols, rows, -, -, rfl⟩
  · exact congrArg some ((spreads_plain rfl).result_eq wise (.inr tys)).symm
  · cases matrixOperation wise (.inl rfl) tys with
    | componentWise => rfl
    | product => exact (oth rfl).elim

lemma sum {val : Ty} {terms : List Expr} (each : ∀ t ∈ terms, d.Typed place ty t)
    (same : ty.derivative? d.ty = val.derivative? d.ty) :
    (d.sum terms val).Ensures (d.Typed place ty) := by
  intro r summed
  rcases sum_keeps (fun fst snd built =>
    join byF fst snd .add (by simp) _ (node_eq_ok.mpr built)) each summed with
      typed | derived
  · exact typed
  · exact (Typed.zero r derived).congr same

end ByFloat

end Derivation.Typed

/-! ## The rules -/

/-- An argument is annotated, and its derivative is one of its type. -/
structure Operand.Typed (u : Operand) (d : Derivation) (place : Option Site) : Prop where
  annotated : u.expr.IsAnnotatedAt place
  derivative : u.derivative.Ensures (d.Typed place u.expr.ty)

/-- An argument has numbers of the given size, and so does its derivative by a scalar. -/
structure Operand.Sized (u : Operand) (d : Derivation) (place : Option Site) (size : Option Dim) :
    Prop where
  expr : u.expr.Sized place u.expr.ty.isGenericFloat size
  derivative (kind : Kind) : u.derivative.Ensures (d.Typed place (Ty.plain size kind))

namespace DerivativeRule

open Ty ShaderAlgebra.Expr Derived

section Rules

variable {place : Option Site} {d : Derivation} {a : Option Dim} {opds : List Operand}
  {builtin : Builtin} {ty : Ty} {size : Option Dim} {kind : Kind} {u : Operand}
  (free : ∀ builtin : Builtin, builtin.IsFree place)
  (byF : d.ty = plain a .float) (typed : ∀ u ∈ opds, u.Typed d place)

lemma size_of_isScalar {x : Ty} (typed : x = plain size kind) (scal : x.isScalar) :
    size = none := by
  cases size <;> simp_all [plain, isScalar]

include byF in
lemma sized_of_typed (typed : u.Typed d place) (tyU : u.expr.ty = plain size kind)
    (num : kind.isNumeric) : u.Sized d place size := by
  refine ⟨⟨typed.annotated, kind, tyU, num, fun _ floats =>
    eq_float_of_isGenericFloat tyU floats⟩, fun _ => ?_⟩
  exact typed.derivative.imp fun du chg => (tyU ▸ chg : d.Typed _ _ du).resize byF

include byF typed in
/-- The arguments have one size or, where that is allowed, are scalars. -/
lemma sized_arguments {s : Signature} (form : builtin.signatures = [s])
    (isGen : .generic ∈ s.parameters)
    (res : builtin.resolve (opds.map (·.expr.ty)) = .ok ty) :
    ∃ size kind, (s.integral = false → kind = .float)
      ∧ (∀ u, (.generic, u) ∈ s.parameters.zip opds → u.Sized d place size)
      ∧ (∀ u, (.genericOrScalar, u) ∈ s.parameters.zip opds →
        ∃ small, (small = none ∨ small = size) ∧ u.Sized d place small)
      ∧ Signature.resultType? s.result (some (plain size kind))
        (s.matrix? (opds.map (·.expr.ty))) = some ty := by
  obtain ⟨size, kind, -, floats, generics, scalars, given⟩ :=
    resolve?_generic isGen ((resolve_eq_ok_of_form form).mp res)
  rw [zip_map_right] at generics scalars
  refine ⟨size, kind, floats, fun u mem => ?_, fun u mem => ?_, given⟩
  · obtain ⟨own, tyU, num⟩ := generics u.expr.ty (mem_map_of_mem mem)
    exact sized_of_typed byF (typed u (of_mem_zip mem).2) tyU num
  · obtain ⟨small, own, tyU, num, fits⟩ := scalars u.expr.ty (mem_map_of_mem mem)
    exact ⟨small, fits, sized_of_typed byF (typed u (of_mem_zip mem).2) tyU num⟩

/-! ### One argument -/

section Unary

variable (gen : ∀ s ∈ builtin.signatures, s.parameters.length = 1 →
    s.parameters = [.generic] ∧ s.result = .generic)
  (res : builtin.resolve (opds.map (·.expr.ty)) = .ok ty)

include byF typed gen res

/-- The derivative of the only argument has the type that the derivative of the call has. -/
lemma only_sized : (only builtin opds).Ensures fun u =>
    opds = [u] ∧ ∃ size kind, ty = plain size kind ∧ u.Sized d place size := by
  intro u found
  obtain rfl := only_eq_ok.mp found
  obtain ⟨size, own, kind, tyU, num, rfl⟩ := resolve_unary gen res
  exact ⟨rfl, size, kind, rfl, sized_of_typed byF (typed u (mem_singleton_self u)) tyU num⟩

variable {out : Expr → Derived Expr} (needsFloats : Bool) {givesFloats : Bool}
  (makes : ∀ {u : Expr} {size : Option Dim}, Factor place needsFloats size u →
    (out u).Ensures (Factor place givesFloats size))
  (floats : place.isSome = true → needsFloats = true →
    (opds.map (·.expr.ty)).head?.any isGenericFloat = true)

include makes floats

lemma typed_chain : (chain builtin out d opds).Ensures (d.Typed place ty) := by
  refine .bind (only_sized byF typed gen res) fun u ⟨single, size, kind, same, part⟩ => ?_
  subst same single
  refine .bind (makes (.own (part.expr.weaken floats))) fun factor isFactor => ?_
  refine .bind (part.derivative kind) fun du chg => ?_
  exact chg.scale byF isFactor

lemma typed_quotient : (quotient builtin out d opds).Ensures (d.Typed place ty) := by
  refine .bind (only_sized byF typed gen res) fun u ⟨single, size, kind, same, part⟩ => ?_
  subst same single
  refine .bind (part.derivative kind) fun du chg => ?_
  refine .bind (makes (.own (part.expr.weaken floats))) fun divisor isFactor => ?_
  exact chg.beside byF isFactor .divide

end Unary

/-! ### Products of vectors -/

include byF in
lemma typed_dotTerm {x y : Expr} (scaled : (multiply x y).Ensures (d.Typed place (plain size kind)))
    (ann : d.isScalar → (floatCall .dot [x, y]).IsAnnotatedAt place) :
    (dotTerm d x y).Ensures (d.Typed place .float) := by
  unfold dotTerm
  split
  · next scal =>
    obtain rfl := (Derivation.Typed.isScalar_iff byF).mp scal
    exact .pure ⟨ann scal, byF ▸ derivative?_scalar.mpr rfl⟩
  · next vec =>
    exact scaled.imp fun t typed => typed.toFloat byF (Bool.eq_false_iff.mpr vec)

section DotTerm

variable {f du : Expr} {floats : Bool} (sized : Sized place floats size f)
  (chg : d.Typed place (plain size kind) du)

include free byF sized chg

lemma typed_dotTerm_right : (dotTerm d f du).Ensures (d.Typed place .float) :=
  typed_dotTerm byF (chg.scale byF (.own sized)) fun scal =>
    Sized.floatCall_isAnnotated (free .dot) sized (chg.sized byF scal)

lemma typed_dotTerm_left : (dotTerm d du f).Ensures (d.Typed place .float) :=
  typed_dotTerm byF (chg.beside byF (.own sized) .multiply) fun scal =>
    Sized.floatCall_isAnnotated (free .dot) (chg.sized byF scal) sized

end DotTerm

lemma compare_isAnnotated {u v : Expr} (cmp : op = .less ∨ op = .greater)
    (annotatedU : u.IsAnnotatedAt place) (annotatedV : v.IsAnnotatedAt place) :
    (node (binaryOf op u v)).Ensures fun cond =>
      cond.IsAnnotatedAt place ∧ cond.ty = .bool := by
  refine .node fun cond built => ⟨annotatedU.binaryOf annotatedV built, ?_⟩
  have tys := ty_of_binaryOf built
  rcases cmp with rfl | rfl <;>
  · simp only [Ty.binary?] at tys
    split at tys
    · obtain ⟨_, -, same⟩ := Option.map_eq_some_iff.mp tys
      exact same.symm
    · cases tys

include free byF typed

section Floats

variable (floats : place.isSome = true → builtin.hasFloats (opds.map (·.expr.ty)) = true)
  (res : builtin.resolve (opds.map (·.expr.ty)) = .ok ty)

include floats res

lemma typed_inverseSqrt (same : builtin = .inverseSqrt) :
    (inverseSqrt d opds).Ensures (d.Typed place ty) := by
  subst same
  refine .bind (only_sized byF typed (by decide) res) fun u ⟨single, size, kind, same, part⟩ => ?_
  subst same single
  have isRoot := (part.expr.marked floats).apply (free .inverseSqrt) rfl
  refine .bind (part.derivative kind) fun du chg => ?_
  refine .bind (chg.scale byF (.float _)) fun scaled chg => ?_
  refine .bind (chg.beside byF (.own isRoot) .multiply) fun above chg => ?_
  exact chg.beside byF (.own part.expr) .divide

lemma typed_normalize (same : builtin = .normalize) :
    (normalize d opds).Ensures (d.Typed place ty) := by
  subst same
  refine .bind (only_sized byF typed (by decide) res)
    fun u ⟨single, size, kind, same, part⟩ => .guarded fun scal => ?_
  subst same single
  have scal : d.isScalar := by simpa using scal
  have isOwn := part.expr.marked floats
  have isDir := isOwn.apply (free .normalize) rfl
  refine .bind (part.derivative kind) fun du chg => ?_
  have isAlong := Sized.floatCall_isAnnotated (free .dot) isDir (chg.sized byF scal)
  have isLength : (floatCall .length [u.expr]).IsAnnotatedAt place := by
    refine .builtin (free .length) (fun here => ?_) (by simpa using part.expr.annotated)
    obtain ⟨own, tyU, -, isF⟩ := isOwn.typed
    obtain rfl := isF here rfl
    simpa [tyU] using resolve_length_float size
  refine .bind ((Factor.own isDir).binary (.ofFloat isAlong rfl) .multiply)
    fun scaled isScaled => ?_
  refine .bind (chg.beside byF isScaled .subtract) fun across chg => ?_
  exact chg.beside byF (.ofFloat isLength rfl) .divide

lemma typed_pow (same : builtin = .pow) : (pow d opds).Ensures (d.Typed place ty) := by
  subst same
  unfold pow
  split
  · next u v =>
    obtain ⟨size, kind, isF, sized, -, given⟩ := sized_arguments byF typed rfl (by decide) res
    obtain rfl := isF rfl
    obtain rfl := Option.some.inj given
    have partU := sized u (by simp)
    have partV := sized v (by simp)
    have isBase := partU.expr.marked floats
    have isPower {x : Expr} {marked : Bool} (sized : Sized place marked size x) :
        Sized place true size (.call Builtin.pow.name [u.expr, x] u.expr.ty) := by
      obtain ⟨kind, typedX, num, -⟩ := sized.typed
      refine isBase.call (free .pow) (by simpa using sized.annotated) fun kind _ isF => ?_
      obtain rfl := isF rfl
      simpa [typedX] using resolve_pow_plain num size
    refine .bind (.termIf (P := d.Typed place (plain size .float)) ?_) fun byBase ofBase =>
      .bind (.termIf (P := d.Typed place (plain size .float)) ?_) fun byExponent ofExponent => ?_
    · -- One less is a float, also if the exponent is an integer.
      refine .bind (partV.expr.binary (.float _) .subtract) fun low isLow => ?_
      rw [Option.or_none] at isLow
      refine .bind ((Factor.own partV.expr).binary (.own (isPower isLow)) .multiply)
        fun scaled isScaled => ?_
      exact .bind (partU.derivative .float) fun du chg => chg.scale byF isScaled
    · refine .bind ((Factor.own (isBase.apply (free .log) rfl)).binary
        (.own (isPower partV.expr)) .multiply) fun scaled isScaled => ?_
      exact .bind (partV.derivative .float) fun dv chg => chg.scale byF isScaled
    · refine .sum byF (forall_mem_append.mpr ⟨ofBase.1, ofExponent.1⟩) ?_
      obtain ⟨own, tyU, -⟩ := partU.expr.typed
      rw [tyU, byF]
      exact derivative?_kind
  · exact .fails _

lemma typed_length (same : builtin = .length) : (length d opds).Ensures (d.Typed place ty) := by
  subst same
  refine .bind (m := only .length opds) (P := fun u => opds = [u])
    (fun u found => only_eq_ok.mp found) fun u single => ?_
  subst single
  obtain ⟨size, kind, -, sized, -, given⟩ := sized_arguments byF typed rfl (by decide) res
  obtain rfl := Option.some.inj given
  have part := sized u (by simp)
  have isDir := (part.expr.marked floats).apply (free .normalize) rfl
  exact .bind (part.derivative .float) fun du chg =>
    typed_dotTerm_right free byF isDir chg

lemma typed_distance (same : builtin = .distance) :
    (distance d opds).Ensures (d.Typed place ty) := by
  subst same
  unfold distance
  split
  · next u v =>
    obtain ⟨size, kind, isF, sized, -, given⟩ := sized_arguments byF typed rfl (by decide) res
    obtain rfl := isF rfl
    obtain rfl := Option.some.inj given
    have partU := sized u (by simp)
    have partV := sized v (by simp)
    refine .bind (partU.expr.binary partV.expr .subtract) fun diff isDiff => ?_
    rw [Option.or_self] at isDiff
    have isDir :=
      (isDiff.marked (by simpa [Builtin.hasFloats] using floats)).apply (free .normalize) rfl
    have whole : Ensures (do subtract (← u.derivative) (← v.derivative))
        (d.Typed place (plain size .float)) :=
      .bind (partU.derivative .float) fun du changeU =>
        .bind (partV.derivative .float) fun dv changeV =>
          changeU.join byF changeV .subtract (by simp)
    exact .bind (whole.mapError _) fun chg typed =>
      typed_dotTerm_right free byF isDir typed
  · exact .fails _

lemma typed_smoothStep (same : builtin = .smoothStep) :
    (smoothStep d opds).Ensures (d.Typed place ty) := by
  subst same
  unfold smoothStep
  split
  · next low high u =>
    obtain ⟨size, kind, -, sized, scalars, given⟩ := sized_arguments byF typed rfl (by decide) res
    obtain rfl := Option.some.inj given
    have part := sized u (by simp)
    obtain ⟨sizeLow, smallLow, partLow⟩ := scalars low (by simp)
    obtain ⟨sizeHigh, smallHigh, partHigh⟩ := scalars high (by simp)
    have isLow : Factor place low.expr.ty.isGenericFloat size low.expr := ⟨_, smallLow, partLow.expr⟩
    have isHigh : Factor place high.expr.ty.isGenericFloat size high.expr :=
      ⟨_, smallHigh, partHigh.expr⟩
    refine .guarded fun _ => .bind (isHigh.binary isLow .subtract) fun width isWidth => ?_
    refine .bind ((Factor.own part.expr).binary isLow .subtract) fun offset isOffset => ?_
    refine .bind (isOffset.binary isWidth .divide) fun scaled isScaled => ?_
    have someFloat (here : place.isSome) : (u.expr.ty.isGenericFloat
        || low.expr.ty.isGenericFloat || (high.expr.ty.isGenericFloat
          || low.expr.ty.isGenericFloat)) := by
      have floats := floats here
      simp only [Builtin.hasFloats, map_cons, map_nil, any_cons, any_nil] at floats
      grind
    have isClamped := (isScaled.map fun sized => sized.marked someFloat).clamp (free .clamp)
    refine .bind ((Factor.float _).binary isClamped .multiply) fun sixfold isSixfold => ?_
    refine .bind ((Factor.float _).binary isClamped .subtract) fun rest isRest => ?_
    refine .bind (isSixfold.binary isRest .multiply) fun slope isSlope => ?_
    refine .bind (part.derivative kind) fun du chg => ?_
    exact .bind (chg.scale byF isSlope) fun above chg =>
      chg.beside byF isWidth .divide
  · exact .fails _

end Floats

lemma typed_dot (res : Builtin.dot.resolve (opds.map (·.expr.ty)) = .ok ty) :
    (dot d opds).Ensures (d.Typed place ty) := by
  unfold dot
  split
  · next u v =>
    obtain ⟨size, kind, isF, sized, -, given⟩ := sized_arguments byF typed rfl (by decide) res
    obtain rfl := isF rfl
    obtain rfl := Option.some.inj given
    have partU := sized u (by simp)
    have partV := sized v (by simp)
    refine .bind (.termIf (.bind (partU.derivative .float) fun du chg =>
      typed_dotTerm_left free byF partV.expr chg)) fun byFirst ofFirst => ?_
    refine .bind (.termIf (.bind (partV.derivative .float) fun dv chg =>
      typed_dotTerm_right free byF partU.expr chg)) fun bySecond ofSecond => ?_
    exact .sum byF (forall_mem_append.mpr ⟨ofFirst.1, ofSecond.1⟩) rfl
  · exact .fails _

lemma typed_cross (floats : Builtin.cross.hasFloats (opds.map (·.expr.ty)))
    (res : Builtin.cross.resolve (opds.map (·.expr.ty)) = .ok ty) :
    (cross d opds).Ensures (d.Typed place ty) := by
  unfold cross
  split
  · next u v =>
    refine .guarded fun scal => ?_
    have scal : d.isScalar := by simpa using scal
    obtain ⟨-, _, -, fits, given⟩ := resolve?_eq_some.mp ((resolve_eq_ok_of_form rfl).mp res)
    obtain rfl := Option.some.inj given
    have convertsU : u.expr.ty.convertsTo (vec .three) := fits (.vec3, u.expr.ty) (by simp)
    have convertsV : v.expr.ty.convertsTo (vec .three) := fits (.vec3, v.expr.ty) (by simp)
    have tyU : u.expr.ty = vec .three := eq_of_convertsTo floats convertsU
    obtain rfl := (Derivation.Typed.isScalar_iff byF).mp scal
    have chg {w : Operand} (mem : w.Typed d place) (conv : w.expr.ty.convertsTo (vec .three)) :
        w.derivative.Ensures fun dw => dw.IsAnnotatedAt place ∧ dw.ty = vec .three := by
      obtain ⟨own, tyW, -⟩ := @plain_of_convertsTo (some .three) .float _ rfl conv
      refine mem.derivative.imp fun dw chg => ?_
      rw [tyW] at chg
      exact ⟨chg.annotated, (chg.type_plain byF).2⟩
    have isProd {x y : Expr} (annotatedX : x.IsAnnotatedAt place)
        (annotatedY : y.IsAnnotatedAt place) (convertsX : x.ty.convertsTo (vec .three))
        (convertsY : y.ty.convertsTo (vec .three)) :
        d.Typed place (vec .three) (.call Builtin.cross.name [x, y] u.expr.ty) := by
      refine ⟨.builtin (free .cross) (fun _ => ?_) (by simpa using ⟨annotatedX, annotatedY⟩), ?_⟩
      · simpa [tyU] using resolve_cross_vec3 convertsX convertsY
      · rw [byF]
        exact derivative?_vector.mpr tyU
    have fst := typed u (by simp)
    have snd := typed v (by simp)
    refine .bind (.termIf (.bind (chg fst convertsU) fun du ⟨ann, typedDu⟩ =>
      .pure (isProd ann snd.annotated (typedDu ▸ convertsTo_self _) convertsV)))
      fun byFirst ofFirst => ?_
    refine .bind (.termIf (.bind (chg snd convertsV) fun dv ⟨ann, typedDv⟩ =>
      .pure (isProd fst.annotated ann convertsU (typedDv ▸ convertsTo_self _))))
      fun bySecond ofSecond => ?_
    exact .sum byF (forall_mem_append.mpr ⟨ofFirst.1, ofSecond.1⟩)
      (congrArg (derivative? · d.ty) tyU.symm)
  · exact .fails _

omit free

lemma typed_mix (res : Builtin.mix.resolve (opds.map (·.expr.ty)) = .ok ty) :
    (mix d opds).Ensures (d.Typed place ty) := by
  unfold mix
  split
  · next u v t =>
    obtain ⟨size, kind, -, sized, scalars, given⟩ := sized_arguments byF typed rfl (by decide) res
    obtain rfl := Option.some.inj given
    have partU := sized u (by simp)
    have partV := sized v (by simp)
    obtain ⟨sizeT, small, partT⟩ := scalars t (by simp)
    have isWeight : Factor place t.expr.ty.isGenericFloat size t.expr := ⟨_, small, partT.expr⟩
    refine .bind (.termIf (.bind (partU.derivative kind) fun du chg =>
      .bind ((Factor.float _).binary isWeight .subtract) fun rest isRest =>
        chg.beside byF isRest .multiply)) fun byFirst ofFirst => ?_
    refine .bind (.termIf (.bind (partV.derivative kind) fun dv chg =>
      chg.beside byF isWeight .multiply)) fun bySecond ofSecond => ?_
    have ofSpan : Ensures (do multiply (← subtract v.expr u.expr) (← t.derivative))
        (d.Typed place (plain size kind)) := by
      refine .bind (partV.expr.binary partU.expr .subtract) fun span isSpan => ?_
      refine .bind (partT.derivative .float) fun dt chg => .node fun s built => ?_
      obtain ⟨sizes, typedDt⟩ := chg.type_plain byF
      obtain ⟨kindSpan, typedSpan, -, -⟩ := isSpan.typed
      have tys := ty_of_binaryOf built
      rw [typedSpan, typedDt, Option.or_self] at tys
      obtain ⟨_, typedS, unified, fits⟩ := binary?_plain .multiply tys
      obtain rfl := eq_float_of_unify? unified (.inr rfl)
      refine ⟨isSpan.annotated.binaryOf chg.annotated built, ?_⟩
      rw [byF, derivative?_plain, typedS]
      cases size <;> cases a <;> rcases small with rfl | rfl <;> simp_all
    refine .bind (.termIf ofSpan) fun byWeight ofWeight => ?_
    refine .sum byF (forall_mem_append.mpr
      ⟨forall_mem_append.mpr ⟨ofFirst.1, ofSecond.1⟩, ofWeight.1⟩) ?_
    obtain ⟨own, tyU, -⟩ := partU.expr.typed
    rw [tyU, byF]
    exact derivative?_kind
  · exact .fails _

lemma typed_extremum (form : builtin.signatures = Builtin.onNumbers [.generic, .genericOrScalar])
    (cmp : op = .less ∨ op = .greater) (res : builtin.resolve (opds.map (·.expr.ty)) = .ok ty) :
    (extremum builtin (fun x y => node (binaryOf op x y)) d opds).Ensures (d.Typed place ty) := by
  unfold extremum
  split
  · next u v =>
    refine .guarded fun scal => ?_
    obtain ⟨scalarU, scalarV⟩ : u.expr.ty.isScalar ∧ v.expr.ty.isScalar := by
      simpa using scal
    obtain ⟨size, kind, -, sized, scalars, given⟩ := sized_arguments byF typed form (by simp) res
    obtain rfl := Option.some.inj given
    obtain ⟨kindU, tyU, -⟩ := (sized u (by simp)).expr.typed
    obtain ⟨sizeV, -, part⟩ := scalars v (by simp)
    obtain ⟨kindV, tyV, -⟩ := part.expr.typed
    obtain rfl := size_of_isScalar tyU scalarU
    obtain rfl := size_of_isScalar tyV scalarV
    have fst := typed u (by simp)
    have snd := typed v (by simp)
    refine .bind (compare_isAnnotated cmp fst.annotated snd.annotated) fun cond isCond => ?_
    refine .bind fst.derivative fun du changeU => ?_
    exact .bind (part.derivative kind) fun dv changeV => changeV.select changeU.annotated isCond
  · exact .fails _

lemma typed_clamp (res : Builtin.clamp.resolve (opds.map (·.expr.ty)) = .ok ty) :
    (clamp d opds).Ensures (d.Typed place ty) := by
  unfold clamp
  split
  · next u low high =>
    obtain ⟨size, kind, -, sized, -, given⟩ := sized_arguments byF typed rfl (by decide) res
    obtain rfl := Option.some.inj given
    have part := sized u (by simp)
    have arg := typed u (by simp)
    have isLow := typed low (by simp)
    have isHigh := typed high (by simp)
    refine .guarded fun _ => ?_
    refine .bind (compare_isAnnotated (.inr rfl) arg.annotated isHigh.annotated)
      fun above isAbove => ?_
    refine .bind isHigh.derivative fun dhigh changeHigh => ?_
    refine .bind (part.derivative kind) fun du chg => ?_
    refine .bind (chg.select changeHigh.annotated isAbove) fun ins chg => ?_
    refine .bind (compare_isAnnotated (.inl rfl) arg.annotated isLow.annotated)
      fun below isBelow => ?_
    exact .bind isLow.derivative fun dlow changeLow => chg.select changeLow.annotated isBelow
  · exact .fails _

omit typed

/-- The last argument has the size of the result. -/
lemma typed_piecewiseConstant (gen : ∀ s ∈ builtin.signatures,
      s.parameters.getLast? = some .generic ∧ s.result = .generic)
    (res : builtin.resolve (opds.map (·.expr.ty)) = .ok ty) :
    (piecewiseConstant d opds).Ensures (d.Typed place ty) := by
  unfold piecewiseConstant
  split
  · next u last =>
    obtain ⟨s, mem, found⟩ := exists_form res
    obtain ⟨ps, result⟩ := gen s mem
    obtain ⟨cnt, -⟩ := resolve?_eq_some.mp found
    obtain ⟨size, kind, -, -, generics, -, given⟩ := resolve?_generic (mem_of_getLast? ps) found
    rw [result] at given
    obtain rfl := Option.some.inj given
    have paired : (.generic, u.expr.ty) ∈ s.parameters.zip (opds.map (·.expr.ty)) := by
      obtain ⟨before, split⟩ := getLast?_eq_some_iff.mp ps
      obtain ⟨others, rfl⟩ := getLast?_eq_some_iff.mp last
      have lengths : before.length = (others.map (·.expr.ty)).length := by simp_all
      rw [split, map_append, zip_append lengths]
      simp
    obtain ⟨own, tyU, -⟩ := generics u.expr.ty paired
    rw [tyU]
    exact Derivation.Typed.zero.imp fun r zero => zero.resize byF
  · exact .fails _

/-! ### The table -/

include free typed

/-- The derivative of a call of a built-in function, by its rule. -/
lemma typed_rule {rule : DerivativeRule} (found : of? builtin = some rule)
    (floats : place.isSome ∨ builtin = .cross → builtin.hasFloats (opds.map (·.expr.ty)))
    (res : builtin.resolve (opds.map (·.expr.ty)) = .ok ty) :
    (rule d opds).Ensures (d.Typed place ty) := by
  have crossFloats := fun isCross => floats (.inr isCross)
  have floats here := floats (.inl here)
  have needed here (_ : true) := floats here
  cases builtin <;> simp only [of?, reduceCtorEq, Option.some.injEq] at found <;> subst found
  case sin | sinh | cosh | exp =>
    exact typed_chain byF typed (by decide) res true
      (fun factor => .pure (factor.apply (free _) rfl)) needed
  case cos =>
    exact typed_chain byF typed (by decide) res true
      (fun factor => (factor.apply (free .sin) rfl).negate) needed
  case tan =>
    exact typed_quotient byF typed (by decide) res true (fun factor =>
      (factor.apply (free .cos) rfl).binary (factor.apply (free .cos) rfl) .multiply) needed
  case asin =>
    exact typed_quotient byF typed (by decide) res false
      (fun factor => factor.unitRoot (free .sqrt)) nofun
  case acos =>
    have quot := typed_quotient byF typed (by decide) res false
      (fun factor => factor.unitRoot (free .sqrt)) nofun
    exact .bind quot fun r typed => typed.negate
  case atan =>
    exact typed_quotient byF typed (by decide) res false (fun factor =>
      .bind (factor.binary factor .multiply) fun square isSquare =>
        (Factor.float _).binary isSquare .add) nofun
  case tanh =>
    exact typed_chain byF typed (by decide) res true
      (fun factor => (factor.apply (free .tanh) rfl).oneMinusSquare) needed
  case exp2 =>
    exact typed_chain byF typed (by decide) res true
      (fun factor => (Factor.float _).binary (factor.apply (free .exp2) rfl) .multiply) needed
  case log =>
    exact typed_quotient byF typed (by decide) res false (fun factor => .pure factor) nofun
  case log2 =>
    exact typed_quotient byF typed (by decide) res false
      (fun factor => factor.binary (.float _) .multiply) nofun
  case sqrt =>
    exact typed_quotient byF typed (by decide) res true
      (fun factor => (Factor.float _).binary (factor.apply (free .sqrt) rfl) .multiply) needed
  case inverseSqrt => exact typed_inverseSqrt free byF typed floats res rfl
  case pow => exact typed_pow free byF typed floats res rfl
  case abs =>
    exact typed_chain byF typed (by decide) res false
      (fun factor => .pure (factor.sign (free .sign))) nofun
  case sign | floor | ceil | round | trunc | step =>
    exact typed_piecewiseConstant byF (by decide) res
  case fract =>
    refine .bind (only_sized byF typed (by decide) res) fun u ⟨single, size, kind, same, part⟩ => ?_
    subst same
    exact part.derivative kind
  case radians | degrees =>
    exact typed_chain byF typed (by decide) res false (fun _ => .pure (.float _)) nofun
  case min => exact typed_extremum byF typed rfl (.inl rfl) res
  case max => exact typed_extremum byF typed rfl (.inr rfl) res
  case clamp => exact typed_clamp byF typed res
  case mix => exact typed_mix byF typed res
  case smoothStep => exact typed_smoothStep free byF typed floats res rfl
  case dot => exact typed_dot free byF typed res
  case length => exact typed_length free byF typed floats res rfl
  case distance => exact typed_distance free byF typed floats res rfl
  case cross => exact typed_cross free byF typed (crossFloats rfl) res
  case normalize => exact typed_normalize free byF typed floats res rfl

end Rules

end DerivativeRule

end ShaderAlgebra
