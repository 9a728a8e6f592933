import ShaderAlgebra.Calculus.Catalogue
import ShaderAlgebra.Proofs.Semantics.Dual
import ShaderAlgebra.Proofs.Semantics.Vectors

/-!
# Smooth expressions

The expressions on floats and float vectors whose derivative is a matter of algebra: they are built
from float literals and variables with the four operations, constructors, swizzles, constant
indices, dot and cross products, mixtures and calls of functions that the chain rule knows.

Such a tree is evaluated with the operations of the arithmetic only. So a function between the
numbers of two arithmetics that commutes with the operations takes the value of the tree in one to
its value in the other (`eval_entrywise`), and two facts about dual arithmetic follow: the standard
part of the value is the value in exact arithmetic (`eval_standard`), and a tree without a variable
that changes does not change (`eval_still`).
-/

namespace ShaderAlgebra

open Arithmetic List Interpretation

namespace Expr

/-- Whether the tree is built on floats and float vectors by smooth operations. -/
inductive IsSmooth (catalogue : Catalogue) : Expr → Prop
  | literal (x : Single) (ty : Ty) : IsSmooth catalogue (.literal (.float x) ty)
  | ident (name : String) {ty : Ty} (generic : ty.isGenericFloat = true) :
    IsSmooth catalogue (.ident name ty)
  | negate {operand : Expr} (ty : Ty) (smooth : IsSmooth catalogue operand) :
    IsSmooth catalogue (.unary .negate operand ty)
  | binary {op : BinaryOp} {left right : Expr} (ty : Ty) (wise : Value.IsComponentWise op)
    (smoothLeft : IsSmooth catalogue left) (smoothRight : IsSmooth catalogue right) :
    IsSmooth catalogue (.binary op left right ty)
  | scalar {function : String} {argument : Expr} (ty : Ty)
    (constructor : Ty.ofName? function = some .float) (isScalar : argument.ty = .float)
    (smooth : IsSmooth catalogue argument) : IsSmooth catalogue (.call function [argument] ty)
  | vector {function : String} {size : Dim} {arguments : List Expr} (ty : Ty)
    (constructor : Ty.ofName? function = some (.vec size))
    (smooth : ∀ argument ∈ arguments, IsSmooth catalogue argument) :
    IsSmooth catalogue (.call function arguments ty)
  | swizzle {base : Expr} (name : String) (ty : Ty) (smooth : IsSmooth catalogue base) :
    IsSmooth catalogue (.field base name ty)
  | index {base : Expr} (n : Int32) (own ty : Ty) (smooth : IsSmooth catalogue base) :
    IsSmooth catalogue (.index base (.literal (.int n) own) ty)
  | dot {first second : Expr} {ty : Ty} (generic : ty.isGenericFloat = true)
    (smoothFirst : IsSmooth catalogue first) (smoothSecond : IsSmooth catalogue second) :
    IsSmooth catalogue (.call Builtin.dot.name [first, second] ty)
  | cross {first second : Expr} {ty : Ty} (generic : ty.isGenericFloat = true)
    (smoothFirst : IsSmooth catalogue first) (smoothSecond : IsSmooth catalogue second) :
    IsSmooth catalogue (.call Builtin.cross.name [first, second] ty)
  | mix {first second weight : Expr} {ty : Ty} (generic : ty.isGenericFloat = true)
    (smoothFirst : IsSmooth catalogue first) (smoothSecond : IsSmooth catalogue second)
    (smoothWeight : IsSmooth catalogue weight) :
    IsSmooth catalogue (.call Builtin.mix.name [first, second, weight] ty)
  | function {function : String} {parameters : List String} {arguments : List Expr}
    (notType : Ty.ofName? function = none) (notBuiltin : Builtin.ofName? function = none)
    (known : catalogue.parameters? function = some parameters)
    (scalars : ∀ argument ∈ arguments, argument.ty = .float)
    (smooth : ∀ argument ∈ arguments, IsSmooth catalogue argument) :
    IsSmooth catalogue (.call function arguments .float)

/-! ## Types -/

section Types

variable {catalogue : Catalogue} {site : Site} {ty : Ty}

lemma generic_of_fieldType {base : Ty} {name : String} (gen : base.isGenericFloat)
    (typed : fieldType base name = .ok ty) : ty.isGenericFloat := by
  obtain ⟨size, rfl⟩ := Ty.isGenericFloat_iff.mp gen
  cases size with
  | none => cases typed
  | some size =>
    obtain ⟨s, -, sel⟩ := bind_eq_ok.mp typed
    obtain ⟨_, _, ⟨⟩, -, rfl⟩ := Swizzle.resultType_eq_ok.mp sel
    split <;> rfl

lemma generic_of_element? {base : Ty} (gen : base.isGenericFloat)
    (typed : base.element? = some ty) : ty.isGenericFloat := by
  obtain ⟨size, rfl⟩ := Ty.isGenericFloat_iff.mp gen
  cases size with
  | none => cases typed
  | some size =>
    cases typed
    rfl

/-- A smooth tree is a float or a float vector. -/
lemma IsSmooth.generic {e : Expr} (smooth : e.IsSmooth catalogue)
    (ann : e.IsAnnotated site) : e.ty.isGenericFloat := by
  induction smooth with
  | literal x ty =>
    obtain rfl : ty = Ty.float := ann.fits
    rfl
  | ident name gen => exact gen
  | @negate opd ty _ ih =>
    obtain rfl : opd.ty = ty := Ty.unary?_eq ann.fits
    exact ih (ann.part mem_operand)
  | @binary op left right ty wise _ _ ihLeft ihRight =>
    exact (Ty.binary?_generic wise (ihLeft (ann.part mem_left))
      (ihRight (ann.part mem_right)) ann.fits).1
  | scalar ty constructor _ _ _ | vector ty constructor _ _ =>
    obtain ⟨rfl, -⟩ := ann.fits.constructor constructor
    rfl
  | swizzle name ty _ ih => exact generic_of_fieldType (ih (ann.part mem_base)) ann.fits
  | index n own ty _ ih =>
    exact generic_of_element? (ih (ann.part mem_indexed)) ann.fits.2
  | dot gen | cross gen | mix gen => exact gen
  | function => rfl

/-- A smooth call of a built-in function has the type that the function gives. -/
lemma IsAnnotated.resolve {bi : Builtin} {args : List Expr}
    (ann : (Expr.call bi.name args ty).IsAnnotated site)
    (gen : ty.isGenericFloat) : bi.resolve (args.map Expr.ty) = .ok ty := by
  refine ann.fits.resolve fun name mems same => ?_
  subst same
  cases gen

lemma IsSmooth.dot_types {fst snd : Expr}
    (ann : (Expr.call Builtin.dot.name [fst, snd] ty).IsAnnotated site)
    (gen : ty.isGenericFloat) (smooth1 : fst.IsSmooth catalogue)
    (smooth2 : snd.IsSmooth catalogue) : snd.ty = fst.ty ∧ ty = Ty.float :=
  Builtin.resolve_dot (smooth1.generic (ann.part mem_first))
    (smooth2.generic (ann.part mem_second)) (ann.resolve gen)

lemma IsSmooth.cross_types {fst snd : Expr}
    (ann : (Expr.call Builtin.cross.name [fst, snd] ty).IsAnnotated site) (gen : ty.isGenericFloat)
    (smooth1 : fst.IsSmooth catalogue) (smooth2 : snd.IsSmooth catalogue) :
    fst.ty = Ty.vec .three ∧ snd.ty = Ty.vec .three ∧ ty = Ty.vec .three :=
  Builtin.resolve_cross (smooth1.generic (ann.part mem_first))
    (smooth2.generic (ann.part mem_second)) (ann.resolve gen)

lemma IsSmooth.mix_types {fst snd wt : Expr}
    (ann : (Expr.call Builtin.mix.name [fst, snd, wt] ty).IsAnnotated site)
    (gen : ty.isGenericFloat) (smooth1 : fst.IsSmooth catalogue) (smooth2 : snd.IsSmooth catalogue)
    (smoothW : wt.IsSmooth catalogue) : Ty.MixesTo fst.ty snd.ty wt.ty ty := by
  obtain ⟨same1, same2, weighs⟩ := Builtin.resolve_mix (smooth1.generic (ann.part mem_first))
      (smooth2.generic (ann.part mem_second))
      (smoothW.generic (ann.part mem_third)) (ann.resolve gen)
  exact ⟨same1, same2, weighs, gen⟩

end Types

/-! ## Values in two arithmetics -/

section Entrywise

variable {A B : Arithmetic} {φ : A.Real → B.Real}

open Value (Entrywise)

lemma forall₂_eval {I : Interpretation A} {J : Interpretation B} {es : List Expr}
    (rel : ∀ e ∈ es, Entrywise φ (e.eval I) (e.eval J)) :
    Forall₂ (Entrywise φ) (es.map (eval I)) (es.map (eval J)) := by
  rw [forall₂_map_left_iff, forall₂_map_right_iff]
  exact forall₂_same.mpr rel

/-- Related interpretations give related values. -/
lemma eval_entrywise {catalogue : Catalogue} {site : Site} (comm : Arithmetic.Commutes φ)
    {I : Interpretation A} {J : Interpretation B}
    (places : ∀ n, B.position (B.ofInt n) = A.position (A.ofInt n))
    (fns : ∀ name vs ws, Forall₂ (Entrywise φ) vs ws →
      J.function name ws .float = φ (I.function name vs .float))
    (beyond : ∀ v w n, Entrywise φ v w →
      J.beyond w (.ofLiteral (.int n)) .float = φ (I.beyond v (.ofLiteral (.int n)) .float))
    {e : Expr} (smooth : e.IsSmooth catalogue) (ann : e.IsAnnotated site)
    (reads : ∀ name ty, ty.isGenericFloat → e.mentions name →
      Entrywise φ ⟨ty, I.read name ty⟩ ⟨ty, J.read name ty⟩) :
    Entrywise φ (e.eval I.withVectors) (e.eval J.withVectors) := by
  induction e using Expr.induction with
  | node e parts =>
  have typed {p : Expr} (mem : p ∈ e.children) : (p.eval I.withVectors).ty = p.ty :=
    eval_ty _ (ann.part mem)
  have rel {p : Expr} (mem : p ∈ e.children) (smooth : p.IsSmooth catalogue) :
      Entrywise φ (p.eval I.withVectors) (p.eval J.withVectors) :=
    parts p mem smooth (ann.part mem) fun name ty gen ment =>
      reads name ty gen (mentions_of_part mem ment)
  cases smooth with
  | literal x ty => exact ⟨rfl, rfl, fun _ _ => (comm.literal x).symm⟩
  | ident name gen => exact reads name _ gen (by simp [mentions])
  | negate ty smooth => exact (rel mem_operand smooth).negate comm.negate
  | @binary op left right ty wise smoothLeft smoothRight =>
    have fits : Ty.binary? op (left.eval I.withVectors).ty (right.eval I.withVectors).ty
        = some ty := by
      rw [typed mem_left, typed mem_right]
      exact ann.fits
    exact (rel mem_left smoothLeft).binary wise (comm.combine wise) (rel mem_right smoothRight) fits
  | scalar ty constructor _ smooth =>
    simp only [eval, evalAll, Interpretation.call, constructor]
    exact Entrywise.construct comm.zero rfl (.cons (rel mem_first smooth) .nil)
  | vector ty constructor smooth =>
    simp only [eval, evalAll_eq, Interpretation.call, constructor]
    exact Entrywise.construct comm.zero rfl (forall₂_eval fun a mem => rel mem (smooth a mem))
  | @swizzle base name ty smooth =>
    have fits : fieldType (base.eval I.withVectors).ty name = .ok ty := by
      rw [typed mem_base]
      exact ann.fits
    exact (rel mem_base smooth).field fits
  | @index base n own ty smooth =>
    have fits : (base.eval I.withVectors).ty.element? = some ty := by
      rw [typed mem_indexed]
      exact ann.fits.2
    exact (rel mem_indexed smooth).index fits (congrArg Int.toNat? (places n)) fun _ =>
      beyond _ _ n (rel mem_indexed smooth)
  | dot gen smooth1 smooth2 =>
    obtain ⟨same, rfl⟩ := IsSmooth.dot_types ann gen smooth1 smooth2
    simp only [eval, evalAll, withVectors_dot]
    refine (rel mem_first smooth1).dot comm (rel mem_second smooth2) ?_
    rw [typed mem_first, typed mem_second, same]
  | cross gen smooth1 smooth2 =>
    obtain ⟨isVec, isVec', rfl⟩ := IsSmooth.cross_types ann gen smooth1 smooth2
    simp only [eval, evalAll, withVectors_cross]
    exact (rel mem_first smooth1).cross comm (rel mem_second smooth2)
      ((typed mem_first).trans isVec) ((typed mem_second).trans isVec')
  | @mix first snd weight ty gen smooth1 smooth2 smoothW =>
    have mixes : Ty.MixesTo (first.eval I.withVectors).ty (snd.eval I.withVectors).ty
        (weight.eval I.withVectors).ty ty := by
      rw [typed mem_first, typed mem_second, typed mem_third]
      exact IsSmooth.mix_types ann gen smooth1 smooth2 smoothW
    have mixed := (rel mem_first smooth1).mix comm (rel mem_second smooth2)
      (rel mem_third smoothW) mixes
    simp only [eval, evalAll]
    rw [withVectors_mix I (Value.ty_mix mixes),
      withVectors_mix J (mixed.ty.trans (Value.ty_mix mixes))]
    exact mixed
  | function notType notBi _ _ smooth =>
    simp only [eval, evalAll_eq, withVectors_call _ notType notBi]
    exact ⟨rfl, rfl, fun _ _ => fns _ _ _ (forall₂_eval fun a mem => rel mem (smooth a mem))⟩

end Entrywise

end Expr

/-! ## Dual arithmetic -/

namespace Arithmetic

variable {u : Unspecified}

lemma commutes_standard : Commutes (A := .dual u) (B := .exact u) standard where
  zero := rfl
  one := rfl
  literal _ := rfl
  negate _ := rfl
  combine wise a b := standard_combine wise a b

lemma commutes_still : Commutes (A := .dual u) (B := .dual u) fun a => still (standard a) where
  zero := rfl
  one := rfl
  literal _ := rfl
  negate _ := dual_ext rfl (neg_zero (G := Rat)).symm
  combine wise a b := still_combine wise a b

end Arithmetic

namespace Value

variable {u : Unspecified}

lemma map_standard_of_entrywise {vs : List (Value (.dual u))} {ws : List (Value (.exact u))}
    (rel : Forall₂ (Entrywise Arithmetic.standard) vs ws) : vs.map standard = ws := by
  induction rel with
  | nil => rfl
  | cons fst _ ih => rw [map_cons, ih, fst.eq_map]; rfl

/-- A value that is another one kept still has the same standard part. -/
lemma standard_eq_of_still {v w : Value (.dual u)}
    (rel : Entrywise (fun a => Arithmetic.still (Arithmetic.standard a)) v w) :
    w.standard = v.standard := by
  have gen : w.ty.isGenericFloat := rel.ty ▸ rel.generic
  refine ext_part rel.ty (Ty.isPlain_of_generic gen) fun row ins => ?_
  have ins' : v.ty.HasRow row := rel.ty ▸ ins
  rw [part_standard gen ins, part_standard rel.generic ins', rel.entry row ins', standard_still]

end Value

namespace Tangent

variable {u : Unspecified} {t : Tangent u}

/-- A function of arguments that do not change does not change. -/
lemma rate_eq_zero {fn : String} {stds : List (Value (.exact u))} {vs ws : List (Value (.dual u))}
    (rel : Forall₂ (Value.Entrywise fun a => Arithmetic.still (Arithmetic.standard a))
      vs ws) (pos : Nat) : t.rate fn stds pos ws = 0 := by
  induction rel generalizing pos with
  | nil => rfl
  | @cons v w _ _ fst _ ih =>
    have still : Arithmetic.slope (w.entry 0) = 0 := by
      rw [fst.entry 0 (Ty.hasRow_zero _), slope_still]
    rw [rate, ih, still, mul_zero, add_zero]

end Tangent

namespace Expr

variable {u : Unspecified} {catalogue : Catalogue} {site : Site} {e : Expr}

/-- The standard part of the value in dual arithmetic is the value in exact arithmetic. -/
lemma IsSmooth.eval_standard (I : Interpretation (.exact u)) (t : Tangent u)
    (smooth : e.IsSmooth catalogue) (ann : e.IsAnnotated site) :
    Value.Entrywise Arithmetic.standard (e.eval (I.dual t).withVectors) (e.eval I.withVectors) := by
  refine eval_entrywise commutes_standard (fun _ => rfl) ?_ ?_ smooth ann ?_
  · intro name vs ws rel
    obtain rfl := Value.map_standard_of_entrywise rel
    exact (standard_moving _ _).symm
  · intro v w n rel
    obtain rfl : w = v.standard := rel.eq_map
    rfl
  · intro name ty gen _
    exact I.entrywise_read_dual t name gen

/-- A tree without a variable that changes does not change. -/
lemma IsSmooth.eval_still (I : Interpretation (.exact u)) {t : Tangent u}
    (smooth : e.IsSmooth catalogue) (ann : e.IsAnnotated site)
    (fixed : ∀ name row, e.mentions name → t.speed name row = 0) {row : Nat}
    (ins : e.ty.HasRow row) : Arithmetic.slope ((e.eval (I.dual t).withVectors).entry row) = 0 := by
  have rel : Value.Entrywise (fun a => Arithmetic.still (Arithmetic.standard a))
      (e.eval (I.dual t).withVectors) (e.eval (I.dual t).withVectors) := by
    refine eval_entrywise commutes_still (fun _ => rfl) ?_ ?_ smooth ann ?_
    · intro name vs ws rel
      have stds : ws.map Value.standard = vs.map Value.standard := by
        induction rel with
        | nil => rfl
        | cons fst _ ih => rw [map_cons, map_cons, ih, Value.standard_eq_of_still fst]
      show Arithmetic.moving (I.function name (ws.map Value.standard) Ty.float)
          (t.rate name (ws.map Value.standard) 0 ws)
        = Arithmetic.still (Arithmetic.standard (Arithmetic.moving
          (I.function name (vs.map Value.standard) Ty.float) _))
      rw [Tangent.rate_eq_zero rel, stds]
      refine dual_ext ?_ (slope_moving _ _)
      exact (standard_moving _ _).trans (standard_moving (u := u) _ _).symm
    · intro v w n rel
      show Arithmetic.still (I.beyond w.standard _ Ty.float)
        = Arithmetic.still (Arithmetic.standard (Arithmetic.still (I.beyond v.standard _ Ty.float)))
      rw [Value.standard_eq_of_still rel]
      rfl
    · intro name ty gen ment
      refine ⟨rfl, gen, fun row ins => dual_ext rfl ?_⟩
      rw [I.slope_read_dual t name gen ins, fixed name _ ment, slope_still]
  rw [← eval_ty (I.dual t).withVectors ann] at ins
  rw [rel.entry row ins, slope_still]

end Expr

end ShaderAlgebra
