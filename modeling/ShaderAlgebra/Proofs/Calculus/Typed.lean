import ShaderAlgebra.Proofs.Calculus.TypedRules

/-!
# Annotations of derivatives

The derivative of an annotated expression is annotated, with the type of the derivative of its value
(`Derivation.typed_derive`). Two things are asked of the nodes that mention the variable
(`Expr.IsRegular`): built-in functions have floats where their rules need them, and `float` is only
made of scalars, since its derivative is that of its argument.

By a vector, a matrix has no derivative that could be written down, but a quotient of a matrix and a
scalar is given one. It leads nowhere, so the statement leaves it aside (`Derivation.Admits`).
-/

namespace ShaderAlgebra

open List Option
open Value (IsComponentWise)

variable {args : List Expr} {function : String}

/-! ## Regular expressions -/

namespace Expr

/-- Whether a call is one whose rule gives a derivative of the right type. -/
def isRegularCall : Expr → Bool
  | .call function arguments _ =>
    (Ty.ofName? function != some .float || arguments.all (·.ty.isScalar))
      && (Builtin.ofName? function).all fun builtin => builtin.hasFloats (arguments.map ty)
  | _ => true

/-- Whether the calls that mention the variable are regular. -/
def IsRegular (name : String) (e : Expr) : Prop :=
  ∀ s, Within s e → s.mentions name = true → s.isRegularCall = true

lemma isRegular_iff {name : String} {e : Expr} :
    e.IsRegular name ↔ (e.mentions name → e.isRegularCall)
      ∧ ∀ part ∈ e.children, part.IsRegular name :=
  forall_within_iff

end Expr

/-! ## Regular calls -/

/-- Types whose derivatives by a variable have one type. -/
def Ty.Shares (variableTy x y : Ty) : Prop :=
  ∃ t, x.derivative? variableTy = some t ∧ y.derivative? variableTy = some t

namespace Derivation

open Ty ShaderAlgebra.Expr Derived

/-- The types whose derivatives the statement is about: scalars, vectors, and matrices by a
scalar. -/
def Admits (d : Derivation) : Ty → Prop
  | .scalar _ => True
  | .vector .. => True
  | .matrix .. => d.isScalar = true
  | _ => False

/-- What is asked of a call. The derivative of `float` and of a declared function is made of those
of the arguments, which have to have its type. On calls that rules make of the arguments the right
type has to stand, and the derivatives of a declared function have to be there, if there is a place
to be annotated at. -/
structure RegularCall (d : Derivation) (place : Option Site) (function : String)
    (arguments : List Expr) (ty : Ty) : Prop where
  shares : Ty.ofName? function = some .float
      ∨ (Ty.ofName? function = none ∧ Builtin.ofName? function = none
        ∧ d.catalogue.parameters? function ≠ none) →
    ∀ x ∈ arguments, d.depends x = true → Ty.Shares d.ty x.ty ty
  floats : ∀ builtin, Builtin.ofName? function = some builtin →
    place.isSome = true ∨ builtin = .cross → builtin.hasFloats (arguments.map Expr.ty) = true
  slopes : ∀ parameters, Ty.ofName? function = none → Builtin.ofName? function = none →
    d.catalogue.parameters? function = some parameters → ∀ parameter ∈ parameters,
      d.catalogue.hasDerivative function parameter = true → ∀ site ∈ place,
        site.Fits (.call (derivativeName parameter function) arguments .float)

/-- What a tree has to keep to: its types are right where they count, it is annotated at the place,
and the calls that the derivative goes through are regular. -/
structure Regular (d : Derivation) (site : Site) (place : Option Site) (e : Expr) : Prop where
  wellTyped : e.IsWellTyped site
  annotated : e.IsAnnotatedAt place
  calls : ∀ {function : String} {arguments : List Expr} {ty : Ty},
    Within (.call function arguments ty) e → d.depends (.call function arguments ty) = true →
    d.Admits ty → d.RegularCall place function arguments ty

lemma Regular.part {d : Derivation} {site : Site} {place : Option Site} {e part : Expr}
    (reg : d.Regular site place e) (mem : part ∈ e.children) : d.Regular site place part where
  wellTyped s inside := reg.wellTyped s (.part mem inside)
  annotated site here := (reg.annotated site here).part mem
  calls inside := reg.calls (.part mem inside)

/-- What the surroundings of a derivative have to offer: the variable with its type, and at the place
no struct instead of a built-in function. -/
structure Supported (d : Derivation) (site : Site) (place : Option Site) : Prop where
  byFloat : ∃ a, d.ty = plain a .float
  bound : site.symbols.lookup d.name = some d.ty
  builtins : ∀ builtin : Builtin, ∀ site ∈ place, site.symbols.structType? builtin.name = none

/-- A struct has no derivative. -/
lemma Admits.notStruct {d : Derivation} {site : Site} {ty : Ty} (admits : d.Admits ty)
    (notTy : Ty.ofName? function = none) (fits : site.Fits (.call function args ty)) :
    site.symbols.structType? function = none := by
  cases found : site.symbols.structType? function with
  | none => rfl
  | some struct =>
    simp only [Site.Fits, Site.callType_eq_ok, notTy, found] at fits
    obtain ⟨ctd, rfl⟩ := fits
    obtain ⟨_, _, rfl, -⟩ := constructStruct_eq_ok.mp ctd
    exact admits.elim

section Operators

variable {place : Option Site} {d : Derivation} {a : Option Dim} {x y t : Ty} {op : BinaryOp}
  {left right : Operand} {r : Expr} (byFloat : d.ty = plain a .float)

lemma admits_plain (size : Option Dim) (kind : Kind) : d.Admits (plain size kind) := by
  cases size <;> trivial

lemma admits_of_derivative? (typed : x.derivative? d.ty = some t) : d.Admits x := by
  obtain ⟨a, byFloat⟩ := exists_plain_of_derivative? typed
  rw [byFloat] at typed
  rcases cases_of_derivative? typed with ⟨size, kind, rfl, -⟩ | ⟨_, _, rfl, none, -⟩
  · exact admits_plain size kind
  · exact (Typed.isScalar_iff byFloat).mpr none

lemma admits_of_binary? (wise : IsComponentWise op) (typed : Ty.binary? op x y = some t)
    (admits : d.Admits t)
    (guarded : op = .multiply → (x.isMatrix || y.isMatrix) → d.isScalar) :
    d.Admits x ∧ d.Admits y := by
  rcases cases_of_binary? wise typed with oper | ⟨s, s', k, k', kind, rfl, rfl, rfl, sizes⟩
  · cases oper with
    | scaledLeft => exact ⟨trivial, admits⟩
    | scaledRight => exact ⟨admits, trivial⟩
    | componentWise | product => exact ⟨admits, admits⟩
    | applied => exact ⟨guarded rfl rfl, trivial⟩
    | transposed => exact ⟨trivial, guarded rfl rfl⟩
  · exact ⟨admits_plain s k, admits_plain s' k'⟩

include byFloat

lemma eq_none_of_admits (admits : d.Admits x) (mat : x.isMatrix) : a = none := by
  cases x with
  | matrix cols rows => exact (Typed.isScalar_iff byFloat).mp admits
  | _ => cases mat

variable (tyL : left.Typed d place) (tyR : right.Typed d place)
  (admL : d.Admits left.expr.ty) (admR : d.Admits right.expr.ty)

section Parts

variable {op' : BinaryOp} {dl dr p : Expr} (wise : IsComponentWise op)
  (typed : Ty.binary? op left.expr.ty right.expr.ty = some t)
include tyL tyR wise typed

lemma typed_left (admR : d.Admits right.expr.ty) (wise' : IsComponentWise op')
    (same : op' = op ∨ op' = .multiply) (onL : left.derivative.outcome = .ok dl)
    (built : binaryOf op' dl right.expr = .ok p) : d.Typed place t p := by
  have chg := tyL.derivative _ onL
  refine ⟨chg.annotated.binaryOf tyR.annotated built, ?_⟩
  have type := chg.type
  rw [byFloat] at type ⊢
  exact derivative?_operation wise wise' same typed (.inl type)
    (.inr ⟨rfl, eq_none_of_admits byFloat admR⟩) (.inl type) (ty_of_binaryOf built)

lemma typed_right (admL : d.Admits left.expr.ty) (onR : right.derivative.outcome = .ok dr)
    (built : binaryOf .multiply left.expr dr = .ok p) : d.Typed place t p := by
  have chg := tyR.derivative _ onR
  refine ⟨tyL.annotated.binaryOf chg.annotated built, ?_⟩
  have type := chg.type
  rw [byFloat] at type ⊢
  exact derivative?_operation wise .multiply (.inr rfl) typed
    (.inr ⟨rfl, eq_none_of_admits byFloat admL⟩) (.inl type) (.inr type) (ty_of_binaryOf built)

end Parts

include tyL tyR

lemma typed_sum (wise : IsComponentWise op)
    (typed : Ty.binary? op left.expr.ty right.expr.ty = some t) {dl dr : Expr}
    (onL : left.derivative.outcome = .ok dl) (onR : right.derivative.outcome = .ok dr)
    (built : binaryOf op dl dr = .ok r) : d.Typed place t r := by
  have changeLeft := tyL.derivative _ onL
  have changeRight := tyR.derivative _ onR
  refine ⟨changeLeft.annotated.binaryOf changeRight.annotated built, ?_⟩
  have typeLeft := changeLeft.type
  have typeRight := changeRight.type
  rw [byFloat] at typeLeft typeRight ⊢
  exact derivative?_operation wise wise (.inl rfl) typed (.inl typeLeft) (.inl typeRight)
    (.inl typeLeft) (ty_of_binaryOf built)

include admL admR

lemma typed_product (typed : Ty.binary? .multiply left.expr.ty right.expr.ty = some t)
    (form : ProductForm d left right r) : d.Typed place t r := by
  have partL {dl p : Expr} (onL : left.derivative.outcome = .ok dl)
      (built : binaryOf .multiply dl right.expr = .ok p) : d.Typed place t p :=
    typed_left byFloat tyL tyR .multiply typed admR .multiply (.inl rfl) onL built
  have partR {dr p : Expr} (onR : right.derivative.outcome = .ok dr)
      (built : binaryOf .multiply left.expr dr = .ok p) : d.Typed place t p :=
    typed_right byFloat tyL tyR .multiply typed admL onR built
  cases form with
  | constantLeft _ onR built => exact partR onR built
  | constantRight _ onL built => exact partL onL built
  | both onL onR fst snd built =>
    exact (partL onL fst).join byFloat (partR onR snd) .add (by simp) _ (node_eq_ok.mpr built)

lemma typed_ratio (typed : Ty.binary? .divide left.expr.ty right.expr.ty = some t)
    (form : RatioForm d left right r) : d.Typed place t r := by
  have partR {dr p : Expr} (onR : right.derivative.outcome = .ok dr)
      (built : binaryOf .multiply left.expr dr = .ok p) : d.Typed place t p :=
    typed_right byFloat tyL tyR .divide typed admL onR built
  -- Dividing by the square of the divisor keeps the type of what is divided.
  have overSquare {above square p : Expr} (chg : d.Typed place t above)
      (squared : binaryOf .multiply right.expr right.expr = .ok square)
      (built : binaryOf .divide above square = .ok p) : d.Typed place t p := by
    have isSquare := tyR.annotated.binaryOf tyR.annotated squared
    refine ⟨chg.annotated.binaryOf isSquare built, ?_⟩
    have type := chg.type
    rw [byFloat] at type ⊢
    rw [derivative?_over_square typed type (ty_of_binaryOf squared) (ty_of_binaryOf built)]
    exact type
  cases form with
  | constantRight _ onL built =>
    exact typed_left byFloat tyL tyR .divide typed admR .divide (.inl rfl) onL built
  | constantLeft _ onR squared prod divided built =>
    exact (overSquare (partR onR prod) squared divided).negate _ (negate_eq_ok.mpr built)
  | both onL onR squared fst snd diff built =>
    have fst := typed_left byFloat tyL tyR .divide typed admR .multiply (.inr rfl) onL fst
    have above := fst.join byFloat (partR onR snd) .subtract (by simp) _ (node_eq_ok.mpr diff)
    exact overSquare above squared built

end Operators

/-! ## Parts of vectors -/

section Parts

variable {place : Option Site} {d : Derivation} {a : Option Dim} {base : Operand} {db r : Expr}
  {size : Dim}
  {kind : Kind} {name : String} {ty : Ty}

/-- The number of components that a swizzle takes does not depend on their kind. -/
lemma fieldType_vector {swz : Swizzle} (parsed : Swizzle.parse name = .ok swz)
    (typed : fieldType (.vector size kind) name = .ok ty) :
    ty = plain (Dim.ofCount? swz.length) kind := by
  simp only [fieldType, isVector, if_true, bind_eq_ok, parsed] at typed
  obtain ⟨_, same, typed⟩ := typed
  obtain rfl := Except.ok.inj same
  obtain ⟨_, _, ⟨⟩, -, rfl⟩ := Swizzle.resultType_eq_ok.mp typed
  cases Dim.ofCount? swz.length <;> rfl

/-- A vector made of as many floats as it has components. -/
lemma vec_isAnnotated (cnt : args.length = size.count)
    (ann : ∀ x ∈ args, x.IsAnnotatedAt place) (floats : ∀ x ∈ args, x.ty = .float) :
    (Expr.call (Ty.vec size).text args (.vec size)).IsAnnotatedAt place := by
  refine .call (fun site _ => ?_) ann
  have tys : args.map Expr.ty = List.replicate size.count .float := by
    rw [← cnt, eq_replicate_iff]
    simpa using floats
  simp only [Site.Fits, Site.callType_eq_ok, Ty.vec, ofName?_text_vector, tys]
  cases size <;> exact ⟨rfl, trivial⟩

variable (byFloat : d.ty = plain a .float)
include byFloat

/-- The gradient of one component. -/
lemma typed_component {pos : Nat} (chg : d.Typed place (.vector size kind) db)
    (der : (d.component db pos).outcome = .ok r) : d.Typed place (.scalar kind) r := by
  obtain ⟨whole, picked, own, ins, chosen, rfl⟩ := component_form der
  have typedDb := chg.type_vector byFloat
  have isPicked : picked.IsAnnotatedAt place ∧ picked.ty = .float := by
    split at chosen
    · subst chosen
      exact ⟨.ofLiteral _, rfl⟩
    · obtain ⟨_, elt, rfl⟩ := indexOf_eq_ok.mp chosen
      rw [typedDb] at elt
      obtain rfl := Option.some.inj elt
      exact ⟨fun site here => within_pair rfl ⟨rfl, typedDb ▸ rfl⟩ (chg.annotated site here)
        (ofLiteral_isAnnotated site _), rfl⟩
  refine ⟨vec_isAnnotated (by simp) (fun x mem => ?_) (fun x mem => ?_), ?_⟩
  · obtain ⟨i, -, rfl⟩ := mem_map.mp mem
    split
    · exact isPicked.1
    · exact .ofLiteral _
  · obtain ⟨i, -, rfl⟩ := mem_map.mp mem
    split
    · exact isPicked.2
    · rfl
  · rw [byFloat] at own ⊢
    refine derivative?_scalar.mpr ?_
    cases a with
    | none => cases own
    | some size =>
      obtain rfl := Option.some.inj own
      rfl

lemma typed_field (typedBase : base.Typed d place) (fits : fieldType base.expr.ty name = .ok ty)
    (der : (d.field base name).outcome = .ok r) : d.Typed place ty r := by
  obtain ⟨size, kind, swz, db, isVec, parsed, onBase, form⟩ := field_form der
  have chg := typedBase.derivative _ onBase
  rw [isVec] at fits chg
  have typedDb := chg.type_vector byFloat
  obtain rfl := fieldType_vector parsed fits
  rcases form with ⟨scal, built⟩ | ⟨-, identity, rfl⟩ | ⟨-, -, pos, single, picked⟩
  · obtain ⟨ty, typedR, rfl⟩ := fieldOf_eq_ok.mp built
    refine ⟨fun site here => within_single rfl typedR (chg.annotated site here), ?_⟩
    obtain rfl := (Typed.isScalar_iff byFloat).mp scal
    rw [typedDb] at typedR
    obtain rfl := fieldType_vector parsed typedR
    rw [byFloat]
    exact derivative?_plain.mpr ⟨.inr (.inl rfl), by rw [or_none]; rfl⟩
  · have cnt : swz.length = size.count := by
      have same : swz.pattern.map Component.index = List.range size.count := by
        simpa [Swizzle.isIdentity] using identity
      simpa [Swizzle.length] using congrArg List.length same
    have whole : Dim.ofCount? size.count = some size := by cases size <;> rfl
    rw [cnt, whole]
    exact chg
  · have one : Dim.ofCount? swz.length = none := by simp [Swizzle.length, single, Dim.ofCount?]
    rw [one]
    exact typed_component byFloat chg picked

lemma typed_index {pos : Expr} (typedBase : base.Typed d place) (ann : pos.IsAnnotatedAt place)
    (int : pos.ty = .int) (elt : base.expr.ty.element? = some ty)
    (der : (d.index base pos).outcome = .ok r) : d.Typed place ty r := by
  obtain ⟨n, db, -, isVec, -, onBase, form⟩ := index_form der
  have chg := typedBase.derivative _ onBase
  generalize base.expr.ty = vec at isVec elt chg
  cases vec with
  | vector size kind =>
    obtain rfl := Option.some.inj elt
    rcases form with ⟨scal, built⟩ | ⟨-, picked⟩
    · obtain ⟨ty, typedR, rfl⟩ := indexOf_eq_ok.mp built
      refine ⟨fun site here => within_pair rfl ⟨int, typedR⟩ (chg.annotated site here)
        (ann site here), ?_⟩
      obtain rfl := (Typed.isScalar_iff byFloat).mp scal
      have typedDb := chg.type_vector byFloat
      rw [typedDb] at typedR
      obtain rfl := Option.some.inj typedR
      rw [byFloat]
      exact derivative?_scalar.mpr rfl
    · exact typed_component byFloat chg picked
  | _ => cases isVec

end Parts

end Derivation

/-! ## Constructors -/

namespace Ty

/-- Types that constructors do not tell apart. -/
structure SameShape (x y : Ty) : Prop where
  components : y.componentCount? = x.componentCount?
  isMatrix : y.isMatrix = x.isMatrix
  alone : ∀ ty, constructsFromOne ty y = constructsFromOne ty x

lemma sameShape_of_derivative? {x y : Ty} (der : x.derivative? .float = some y) :
    SameShape x y := by
  have der : x.derivative? (plain none .float) = some y := der
  rcases cases_of_derivative? der with ⟨size, kind, rfl, -, rfl⟩ | ⟨cols, rows, rfl, -, rfl⟩
  · cases size with
    | none | some size => exact ⟨rfl, rfl, fun ty => by cases ty <;> rfl⟩
  · exact ⟨rfl, rfl, fun _ => rfl⟩

variable {ty : Ty} {xs ys : List Ty}

section

variable (shapes : Forall₂ SameShape xs ys)

include shapes

lemma totalComponents?_congr : totalComponents? ys = totalComponents? xs := by
  induction shapes with
  | nil => rfl
  | cons shp _ ih => simp only [totalComponents?, shp.components, ih]

lemma any_isMatrix_congr : ys.any isMatrix = xs.any isMatrix := by
  induction shapes with
  | nil => rfl
  | cons shp _ ih => simp only [any_cons, shp.isMatrix, ih]

/-- What a constructor says of its arguments depends on their shapes only. -/
lemma construct_congr (ctd : ty.construct xs = .ok ()) : ty.construct ys = .ok () := by
  rw [construct_eq_ok, totalComponents?_congr shapes]
  obtain ⟨wanted, tot, own, given, takes⟩ := construct_eq_ok.mp ctd
  refine ⟨wanted, tot, own, given, ?_⟩
  have matrices := any_isMatrix_congr shapes
  cases shapes with
  | nil => exact takes
  | cons shp rest =>
    cases rest with
    | nil => simpa only [Takes, shp.alone, shp.isMatrix] using takes
    | cons shp' rest => simpa only [Takes, matrices] using takes

end

/-- The arguments of a constructor are numbers, vectors and matrices. -/
lemma componentCount?_of_construct (ctd : ty.construct xs = .ok ()) :
    ∀ x ∈ xs, ∃ cnt, x.componentCount? = some cnt := by
  obtain ⟨-, tot, -, counted, -⟩ := construct_eq_ok.mp ctd
  clear ctd
  induction xs generalizing tot with
  | nil => simp
  | cons x xs ih =>
    simp only [totalComponents?, bind_eq_bind, bind_eq_some_iff] at counted
    obtain ⟨cnt, found, rest, inRest, -⟩ := counted
    intro oth mem
    rcases mem_cons.mp mem with rfl | mem
    · exact ⟨cnt, found⟩
    · exact ih rest inRest oth mem

end Ty

/-! ## Arguments of built-in functions -/

namespace Signature

open Ty

/-- An argument of a parameter that takes no matrix is a scalar or a vector. -/
lemma plain_of_fits {s : Signature} {args : List Ty} {ty : Ty}
    (nm : ∀ p ∈ s.parameters, p ≠ .matrix ∧ p ≠ .squareMatrix) (res : s.resolve? args = some ty) :
    ∀ x ∈ args, ∃ size kind, x = plain size kind := by
  obtain ⟨cnt, gen, bound, fits, -⟩ := resolve?_eq_some.mp res
  -- The type that is bound for the whole call is a scalar or a vector.
  have isPl : ∀ g ∈ gen, ∃ size kind, g = plain size kind ∧ kind.isNumeric := by
    rintro g ⟨⟩
    unfold generic? at bound
    split at bound
    · cases bound
    · obtain ⟨_, isBound, same⟩ := map_eq_some_iff.mp bound
      obtain rfl := Option.some.inj same
      obtain ⟨size, kind, -, num, rfl⟩ := bind?_eq_some isBound
      refine ⟨size, _, rfl, ?_⟩
      split
      · exact num
      · rfl
  intro x mem
  rw [← map_snd_zip (Nat.le_of_eq cnt)] at mem
  obtain ⟨⟨p, _⟩, ins, rfl⟩ := mem_map.mp mem
  have fitsX := fits _ ins
  obtain ⟨notMatrix, notSquare⟩ := nm p (of_mem_zip ins).1
  cases p with
  | generic =>
    cases gen with
    | none => cases fitsX
    | some g =>
      obtain ⟨size, kind, rfl, num⟩ := isPl g rfl
      obtain ⟨own, rfl, -⟩ := plain_of_convertsTo num fitsX
      exact ⟨size, own, rfl⟩
  | genericOrScalar =>
    cases gen with
    | none => cases fitsX
    | some g =>
      obtain ⟨size, kind, rfl, num⟩ := isPl g rfl
      obtain ⟨small, own, rfl, -, -⟩ := plain_of_fits_scalar num fitsX
      exact ⟨small, own, rfl⟩
  | float =>
    obtain ⟨own, rfl, -⟩ := @plain_of_convertsTo none .float _ rfl fitsX
    exact ⟨none, own, rfl⟩
  | vec3 =>
    obtain ⟨own, rfl, -⟩ := @plain_of_convertsTo (some .three) .float _ rfl fitsX
    exact ⟨some .three, own, rfl⟩
  | matrix => exact (notMatrix rfl).elim
  | squareMatrix => exact (notSquare rfl).elim

end Signature

lemma Builtin.plain_of_resolve {bi : Builtin} {rule : DerivativeRule} {tys : List Ty} {ty : Ty}
    (found : DerivativeRule.of? bi = some rule) (res : bi.resolve tys = .ok ty) :
    ∀ x ∈ tys, ∃ size kind, x = Ty.plain size kind := by
  obtain ⟨s, mem, res⟩ := exists_form res
  have nm : ∀ s ∈ bi.signatures, ∀ p ∈ s.parameters, p ≠ .matrix ∧ p ≠ .squareMatrix := by
    cases bi <;> first
      | decide
      | cases found
  exact Signature.plain_of_fits (nm s mem) res

/-! ## Calls -/

namespace Derivation

open Ty ShaderAlgebra.Expr Derived

section Calls

variable {place : Option Site} {d : Derivation} {a : Option Dim} {opds : List Operand} {r : Expr}
  {ty : Ty} (byFloat : d.ty = plain a .float)
  (typed : ∀ u ∈ opds, d.Admits u.expr.ty → u.Typed d place)
include byFloat typed

lemma typed_construction (ctd : ty.construct (opds.map (·.expr.ty)) = .ok ())
    (shares : ty = .float → ∀ u, opds = [u] → Ty.Shares d.ty u.expr.ty .float)
    (der : (d.construction ty opds).outcome = .ok r) : d.Typed place ty r := by
  rcases construction_form der with ⟨rfl, u, rfl, onArg⟩ | ⟨shp, scal, rs, all, rfl⟩
  · obtain ⟨t, own, wanted⟩ := shares rfl u rfl
    have arg := typed u (mem_singleton_self u) (admits_of_derivative? own)
    exact (arg.derivative _ onArg).congr (wanted.trans own.symm)
  · obtain rfl := (Typed.isScalar_iff byFloat).mp scal
    have each : ∀ {u du}, (u, du) ∈ opds.zip rs → d.Typed place u.expr.ty du := by
      intro u du paired
      rw [derivatives_eq_ok] at all
      have mem := (of_mem_zip paired).1
      obtain ⟨cnt, counted⟩ := componentCount?_of_construct ctd _ (mem_map.mpr ⟨u, mem, rfl⟩)
      have admits : d.Admits u.expr.ty := by
        generalize u.expr.ty = value at counted
        cases value with
        | scalar | vector => trivial
        | matrix => exact scal
        | _ => cases counted
      exact (typed u mem admits).derivative _ ((forall₂_iff_zip.mp all).2 paired)
    have lengths := (derivatives_eq_ok.mp all).length_eq
    have shapes : Forall₂ SameShape (opds.map (·.expr.ty)) (rs.map Expr.ty) := by
      rw [forall₂_map_left_iff, forall₂_map_right_iff, forall₂_iff_zip]
      refine ⟨lengths, fun paired => sameShape_of_derivative? ?_⟩
      have type := (each paired).type
      rwa [byFloat] at type
    have named : Ty.ofName? ty.text = some ty := by
      rcases shp with ⟨size, rfl⟩ | ⟨cols, rows, rfl⟩
      · exact ofName?_text_vector size .float
      · exact ofName?_text_matrix cols rows
    refine ⟨.call (fun site _ => ?_) fun du mem => ?_, ?_⟩
    · simp only [Site.Fits, Site.callType_eq_ok, named]
      exact ⟨construct_congr shapes ctd, trivial⟩
    · rw [← map_snd_zip (Nat.le_of_eq lengths.symm)] at mem
      obtain ⟨⟨u, _⟩, paired, rfl⟩ := mem_map.mp mem
      exact (each paired).annotated
    · rw [byFloat]
      rcases shp with ⟨size, rfl⟩ | ⟨cols, rows, rfl⟩
      · exact derivative?_vector.mpr rfl
      · exact derivative?_matrix.mpr ⟨rfl, rfl⟩

omit typed

/-- The terms of the chain rule are derivatives of the type of the call. -/
lemma typed_chainTerms {tot res : Option Expr} {pairs : List (String × Operand)}
    (slopes : ∀ pair ∈ pairs, d.catalogue.hasDerivative function pair.1 →
      (Expr.call (derivativeName pair.1 function) args .float).IsAnnotatedAt place)
    (typed : ∀ pair ∈ pairs, d.depends pair.2.expr → ∀ {du},
      pair.2.derivative.outcome = .ok du → d.Typed place ty du)
    (tyTotal : ∀ t ∈ tot, d.Typed place ty t)
    (der : (d.chainTerms function args tot pairs).outcome = .ok res) :
    ∀ t ∈ res, d.Typed place ty t := by
  induction pairs generalizing tot with
  | nil =>
    obtain rfl : tot = res := by simpa [chainTerms] using der
    exact tyTotal
  | cons pair rest ih =>
    obtain ⟨param, u⟩ := pair
    have inRest {tot : Option Expr} (tyTotal : ∀ t ∈ tot, d.Typed place ty t) :=
      ih (fun pair mem => slopes pair (mem_cons_of_mem _ mem))
        (fun pair mem => typed pair (mem_cons_of_mem _ mem)) tyTotal
    rcases chainTerms_cons der with ⟨-, der⟩ | ⟨du, term, sum, moves, avail, onArg,
      built, added, der⟩
    · exact inRest tyTotal der
    · have isSlope := slopes _ mem_cons_self avail
      have chg := typed _ mem_cons_self moves onArg
      have typedTerm : d.Typed place ty term := chg.slope byFloat isSlope rfl _ (node_eq_ok.mpr built)
      refine inRest (fun t mem => ?_) der
      obtain rfl := mem_some_iff.mp mem
      cases tot with
      | none => exact added ▸ typedTerm
      | some tot =>
        exact (tyTotal tot rfl).join byFloat typedTerm .add (by simp) _ (node_eq_ok.mpr added)

end Calls

variable {site : Site} {place : Option Site} {d : Derivation} {r : Expr}

lemma typed_call {ty : Ty} (supp : d.Supported site place)
    (reg : d.Regular site place (.call function args ty))
    (moves : d.depends (.call function args ty)) (admits : d.Admits ty)
    (typed : ∀ x ∈ args, d.Admits x.ty → ∀ {dx}, (d.derive x).outcome = .ok dx →
      d.Typed place x.ty dx)
    (der : (d.call function (d.deriveAll args) ty).outcome = .ok r) :
    d.Typed place ty r := by
  obtain ⟨a, byFloat⟩ := supp.byFloat
  have call := reg.calls .root moves admits
  have opds : ∀ u ∈ args.map (fun x => (⟨x, d.derive x⟩ : Operand)),
      d.Admits u.expr.ty → u.Typed d place := by
    intro u mem admitsU
    obtain ⟨x, ins, rfl⟩ := mem_map.mp mem
    exact ⟨(reg.part ins).annotated, fun _ => typed x ins admitsU⟩
  rw [deriveAll_eq] at der
  unfold Derivation.call at der
  cases type : Ty.ofName? function with
  | some ctd =>
    rw [type] at der
    have fits := reg.wellTyped _ .root (Site.writesNothing_of_type type)
    simp only [Site.Fits, Site.callType_eq_ok, type] at fits
    obtain ⟨acc, rfl⟩ := fits
    refine typed_construction byFloat opds ?_ ?_ der
    · simpa [Function.comp_def] using acc
    · rintro rfl u single
      obtain ⟨x, rfl, rfl⟩ := map_eq_singleton_iff.mp single
      refine call.shares (.inl type) x mem_cons_self ?_
      simpa [depends, mentions, mentionsAny] using moves
  | none =>
    cases isBi : Builtin.ofName? function with
    | some bi =>
      have named : bi.name = function := by simpa using find?_some isBi
      rw [type, isBi] at der
      dsimp only at der
      split at der
      · next rule found =>
        subst named
        have fits := reg.wellTyped _ .root (Site.writesNothing_of_builtin isBi)
        have res : bi.resolve (args.map Expr.ty) = .ok ty := by
          have notStruct := admits.notStruct type fits
          simpa only [Site.Fits, Site.callType_eq_ok, type, notStruct, isBi] using fits
        have tys : (args.map fun x => (⟨x, d.derive x⟩ : Operand)).map (·.expr.ty)
            = args.map Expr.ty := by simp
        refine DerivativeRule.typed_rule supp.builtins byFloat (fun u mem => ?_) found ?_ ?_ r der
        · refine opds u mem ?_
          obtain ⟨x, ins, rfl⟩ := mem_map.mp mem
          obtain ⟨size, kind, plain⟩ := Builtin.plain_of_resolve found res x.ty
            (mem_map.mpr ⟨x, ins, rfl⟩)
          exact plain ▸ admits_plain size kind
        · rw [tys]
          exact call.floats bi isBi
        · rw [tys]
          exact res
      · cases der
    | none =>
      rw [type, isBi] at der
      cases regd : d.catalogue.parameters? function with
      | none =>
        rw [regd] at der
        cases der
      | some ps =>
        rw [regd] at der
        obtain ⟨-, tot, terms, result⟩ := chain_form der
        have exprs : (args.map fun x => (⟨x, d.derive x⟩ : Operand)).map (·.expr)
            = args := by simp [Function.comp_def]
        rw [exprs] at terms
        have each : ∀ t ∈ tot, d.Typed place ty t := by
          refine typed_chainTerms byFloat (fun pair mem avail => ?_)
            (fun pair mem moves du onArg => ?_) (by simp) terms
          · exact .call (call.slopes ps type isBi regd pair.1
              (of_mem_zip mem).1 avail) fun x ins => (reg.part ins).annotated
          · obtain ⟨x, ins, same⟩ := mem_map.mp (of_mem_zip mem).2
            rw [← same] at moves onArg
            obtain ⟨t, own, wanted⟩ := call.shares (.inr ⟨type, isBi, by simp [regd]⟩) x ins moves
            exact (typed x ins (admits_of_derivative? own) onArg).congr (wanted.trans own.symm)
        rcases result with rfl | ⟨-, der⟩
        · exact each r rfl
        · exact .zero r der

/-! ## Expressions -/

/-- A derivative is annotated at the place, with the type of the derivative of the value. -/
lemma typed_derive {e : Expr} (supp : d.Supported site place) (reg : d.Regular site place e)
    (admits : d.Admits e.ty) (der : (d.derive e).outcome = .ok r) : d.Typed place e.ty r := by
  obtain ⟨a, byFloat⟩ := supp.byFloat
  induction e using Expr.induction generalizing r with
  | node e ih =>
    have part {p dp : Expr} (mem : p ∈ e.children) (admitsP : d.Admits p.ty)
        (onPart : (d.derive p).outcome = .ok dp) : d.Typed place p.ty dp :=
      ih p mem (reg.part mem) admitsP onPart
    have opd {p : Expr} (mem : p ∈ e.children) (admitsP : d.Admits p.ty) :
        Operand.Typed ⟨p, d.derive p⟩ d place :=
      ⟨(reg.part mem).annotated, fun _ => part mem admitsP⟩
    have fits := reg.wellTyped e .root
    rcases derive_form der with ⟨-, der⟩ | ⟨moves, der⟩
    · exact .zero r der
    cases e with
    | literal val ty => exact .zero r der
    | ident name ty =>
      obtain rfl : name = d.name := by simpa [depends, mentions] using moves
      obtain rfl : ty = d.ty := Option.some.inj ((fits trivial).symm.trans supp.bound)
      obtain ⟨isOne, typedOne⟩ := IsAnnotatedAt.constant? (one_eq_ok.mp der)
      refine ⟨isOne, ?_⟩
      rw [typedOne, byFloat]
      exact derivative?_plain.mpr ⟨.inr (.inr rfl), by simp⟩
    | unary op opd' ty =>
      cases op with
      | negate =>
        simp only [byKind, Logged.bind_ok] at der
        obtain ⟨du, onOpd, built⟩ := der
        obtain rfl : ty = opd'.ty := ty_of_negate (unaryOf_eq_ok.mpr ⟨ty, fits trivial, rfl⟩)
        exact (part mem_operand admits onOpd).negate r built
      | _ => cases der
    | binary op left right ty =>
      have fits : Ty.binary? op left.ty right.ty = some ty := fits trivial
      have sum (wise : IsComponentWise op) (oth : op ≠ .multiply) {dl dr : Expr}
          (onL : (d.derive left).outcome = .ok dl)
          (onR : (d.derive right).outcome = .ok dr)
          (built : binaryOf op dl dr = .ok r) : d.Typed place ty r := by
        obtain ⟨admL, admR⟩ := admits_of_binary? wise fits admits fun isProd => (oth isProd).elim
        exact typed_sum byFloat (opd mem_left admL) (opd mem_right admR) wise fits onL onR built
      cases op with
      | add =>
        simp only [byKind, Derivation.binary, Logged.bind_ok, add_eq_ok] at der
        obtain ⟨dl, onL, dr, onR, built⟩ := der
        exact sum .add (by simp) onL onR built
      | subtract =>
        simp only [byKind, Derivation.binary, Logged.bind_ok, subtract_eq_ok] at der
        obtain ⟨dl, onL, dr, onR, built⟩ := der
        exact sum .subtract (by simp) onL onR built
      | multiply =>
        obtain ⟨guarded, form⟩ := product_form der
        obtain ⟨admL, admR⟩ := admits_of_binary? .multiply fits admits fun _ => guarded
        exact typed_product byFloat (opd mem_left admL) (opd mem_right admR) admL admR fits form
      | divide =>
        obtain ⟨admL, admR⟩ := admits_of_binary? .divide fits admits (by simp)
        exact typed_ratio byFloat (opd mem_left admL) (opd mem_right admR)
          admL admR fits (ratio_form der)
      | _ => cases der
    | field base name ty =>
      obtain ⟨size, kind, -, -, isVec, -, -, -⟩ := field_form der
      have admB : d.Admits base.ty := isVec ▸ trivial
      exact typed_field byFloat (opd mem_base admB) (fits trivial) der
    | index base pos ty =>
      obtain ⟨-, -, -, isVec, -, -, -⟩ := index_form der
      have admB : d.Admits base.ty := by
        generalize base.ty = vec at isVec
        cases vec with
        | vector => trivial
        | _ => cases isVec
      exact typed_index byFloat (opd mem_indexed admB) (reg.part mem_position).annotated
        (fits trivial).1 (fits trivial).2 der
    | conditional cond acc rej ty =>
      obtain ⟨-, same, rfl⟩ : cond.ty = Ty.bool ∧ acc.ty = rej.ty ∧ ty = acc.ty := fits trivial
      rw [byKind, Logged.bind_ok] at der
      obtain ⟨_, -, der⟩ := der
      split at der
      · have typed := part mem_accept admits der
        exact typed
      · have admitsReject : d.Admits rej.ty := same ▸ admits
        exact (part mem_reject admitsReject der).congr (congrArg (derivative? · d.ty) same)
      · cases der
    | call function args ty =>
      exact typed_call supp reg moves admits (fun x mem admitsX => part mem admitsX) der
    | assign => cases der

end Derivation

end ShaderAlgebra
