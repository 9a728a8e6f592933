import ShaderAlgebra.Proofs.Script.Origin
import ShaderAlgebra.Proofs.Typing.Builtins

/-!
# What helpers are handed

Four helpers of the library go through the components of what they are handed: a number is taken by
itself, and anything else has to be an array of numbers. What the script of an accepted expression
hands them is the script of a number, a vector or a matrix, as long as no vector and no matrix is
constructed from a boolean (`lower_hands_numbers`). Such a boolean is handed over as it is, although
a scalar that is constructed from one is converted.
-/

namespace ShaderAlgebra

open Option

/-- Whether the helpers can go through a value of the shape. -/
def Shape.isIterable : Shape → Bool
  | .number | .vector _ | .matrix _ => true
  | .boolean | .aggregate => false

namespace Ty

/-- Whether the type is made of numbers. -/
def isNumeric (ty : Ty) : Bool := ty.kind?.any Kind.isNumeric

/-- Whether a value of the type is a number or an array of numbers in a script. -/
def isIterable (ty : Ty) : Bool := ty.shape?.any Shape.isIterable

lemma isIterable_of_numeric {ty : Ty} (numeric : ty.isNumeric)
    (shaped : ty.shape?.isSome) : ty.isIterable := by
  cases ty with
  | scalar kind =>
    cases kind with
    | bool => cases numeric
    | _ => rfl
  | vector size kind => cases kind <;> simp_all [isIterable, shape?, Shape.isIterable]
  | matrix cols rows =>
    by_cases square : cols = rows <;> simp_all [isIterable, shape?, Shape.isIterable]
  | _ => cases numeric

lemma componentCount?_isSome {x : Ty} {xs : List Ty} (mem : x ∈ xs)
    (counted : (totalComponents? xs).isSome) : x.componentCount?.isSome := by
  induction xs with
  | nil => cases mem
  | cons y ys ih =>
    cases first : y.componentCount? <;> cases rest : totalComponents? ys <;>
      simp only [totalComponents?, first, rest] at counted ih
    case some.some =>
      rcases List.mem_cons.mp mem with rfl | inRest
      · rw [first]
        rfl
      · exact ih inRest rfl
    all_goals cases counted

end Ty

/-! ## Arguments of built-in functions -/

namespace Signature

lemma isNumeric_of_convertsTo {source target : Ty} (converts : source.convertsTo target)
    (numeric : target.isNumeric) : source.isNumeric := by
  rcases Ty.convertsTo_iff.mp converts with rfl | ⟨size, rfl, rfl⟩
  · exact numeric
  · cases size <;> rfl

lemma isNumeric_of_bind? {keeps : Bool} {x g : Ty} (bound : bind? keeps x = some g) :
    g.isNumeric := by
  unfold bind? at bound
  split at bound <;> cases bound <;> cases keeps <;> rfl

/-- What a form takes is numeric. -/
lemma isNumeric_of_fits {generic matrix : Option Ty} {pattern : Pattern} {x : Ty}
    (bound : ∀ g ∈ generic, g.isNumeric) (fit : fits generic matrix pattern x) : x.isNumeric := by
  cases pattern with
  | generic =>
    obtain ⟨g, isGeneric, converts⟩ := (any_eq_true _ _).mp fit
    exact isNumeric_of_convertsTo converts (bound g isGeneric)
  | genericOrScalar =>
    obtain ⟨g, isGeneric, either⟩ := (any_eq_true _ _).mp fit
    rcases Bool.or_eq_true _ _ ▸ either with converts | scalar
    · exact isNumeric_of_convertsTo converts (bound g isGeneric)
    · obtain ⟨kind, own, converts⟩ := (any_eq_true _ _).mp scalar
      have numeric := bound g isGeneric
      rw [Ty.isNumeric, own] at numeric
      exact isNumeric_of_convertsTo converts numeric
  | float | vec3 => exact isNumeric_of_convertsTo fit rfl
  | matrix | squareMatrix =>
    cases x <;> simp_all [fits, Ty.isMatrix]
    rfl

end Signature

/-- The arguments of a built-in function are numeric. -/
lemma Builtin.isNumeric_of_resolve {builtin : Builtin} {types : List Ty} {ty x : Ty}
    (resolved : builtin.resolve types = .ok ty) (mem : x ∈ types) : x.isNumeric := by
  obtain ⟨s, -, taken⟩ := List.exists_of_findSome?_eq_some (resolve_eq_ok.mp resolved)
  obtain ⟨count, generic, isGeneric, fits, -⟩ := Signature.resolve?_eq_some.mp taken
  obtain ⟨i, inRange, rfl⟩ := List.mem_iff_getElem.mp mem
  have inZip : i < (s.parameters.zip types).length := by simp [← count, inRange]
  have fit := fits _ (List.getElem_mem inZip)
  rw [List.getElem_zip] at fit
  refine Signature.isNumeric_of_fits (fun g isSome => ?_) fit
  unfold Signature.generic? at isGeneric
  split at isGeneric
  · cases isGeneric
    cases isSome
  · obtain ⟨g', bound, rfl⟩ := map_eq_some_iff.mp isGeneric
    obtain rfl := Option.some.inj isSome
    exact Signature.isNumeric_of_bind? bound

/-! ## Expressions -/

namespace Expr

open Script.Expr (handed helpers)

variable {site : Site} {structs : StructTable} {e t part : Expr} {j : Script.Expr}

/-- Whether the root constructs no vector and no matrix from a boolean. -/
def takesNoFlag : Expr → Bool
  | .call function arguments _ =>
    (Ty.ofName? function).all Ty.isScalar || arguments.all fun argument => argument.ty ≠ Ty.bool
  | _ => true

lemma isSome_shape?_of_lower (lowered : e.lower structs = .ok j) (value : e.ty ≠ .void) :
    e.ty.shape?.isSome := by
  have representable : e.representable = .ok () := by
    cases e <;> simp only [lower, bind_eq_ok] at lowered <;> exact lowered.choose_spec.1
  rw [Expr.representable, if_neg value] at representable
  obtain ⟨shape, shaped, -⟩ := map_eq_ok.mp representable
  rw [shape_eq_ok.mp shaped]
  rfl

lemma PassesOwn.mem_children (own : e.PassesOwn part) : part ∈ e.children := by
  cases own with
  | operand mem | updated mem | component _ _ mem | argument _ _ mem => exact mem

/-- What an annotated node hands over is a number or an array of numbers. -/
lemma PassesOwn.isIterable (own : e.PassesOwn part) (annotated : e.IsAnnotated site)
    (noFlag : e.takesNoFlag)
    (noStruct : ∀ builtin : Builtin, site.symbols.structType? builtin.name = none)
    (lowered : part.lower structs = .ok j) : part.ty.isIterable := by
  -- What has a kind is no `void`, so it has a shape once it is lowered.
  have numeric (isNumeric : part.ty.isNumeric) : part.ty.isIterable := by
    refine Ty.isIterable_of_numeric isNumeric (isSome_shape?_of_lower lowered fun void => ?_)
    rw [void] at isNumeric
    cases isNumeric
  have fits := annotated.fits
  cases own with
  | operand _ number | updated _ number => rw [Ty.isIterable, number]; rfl
  | component named wide mem =>
    have noBool : part.ty ≠ Ty.bool := by simp_all [takesNoFlag]
    simp only [Site.Fits, Site.callType_eq_ok, named] at fits
    obtain ⟨wanted, total, -, counted, -⟩ := Ty.construct_eq_ok.mp fits.1
    have count := Ty.componentCount?_isSome (List.mem_map_of_mem (f := Expr.ty) mem)
      (isSome_of_mem counted)
    refine numeric ?_
    cases h : part.ty with
    | scalar kind =>
      cases kind with
      | bool => exact absurd h noBool
      | _ => rfl
    | vector size kind =>
      have shaped := isSome_shape?_of_lower lowered (by simp [h])
      cases kind <;> simp_all [Ty.shape?]
      rfl
    | matrix => rfl
    | _ => simp [h, Ty.componentCount?] at count
  | argument notType named mem =>
    rename_i builtin
    obtain rfl : builtin.name = _ := by simpa using List.find?_some named
    simp only [Site.Fits, Site.callType_eq_ok, notType, noStruct, named] at fits
    exact numeric (Builtin.isNumeric_of_resolve fits (List.mem_map_of_mem mem))

/-- Whatever the script of an accepted expression hands to a helper is a size, or the script of a
part whose value the helper can go through. -/
theorem lower_hands_numbers (inferred : e.infer site = .ok t) (lowered : t.lower structs = .ok j)
    (noFlag : ∀ s, Within s t → s.takesNoFlag = true)
    (noStruct : ∀ builtin : Builtin, site.symbols.structType? builtin.name = none)
    (noHelper : ∀ u ∈ t.uses, u.spelling ∉ helpers) :
    ∀ path arguments, .callOf path arguments ∈ j.nodes →
      ∀ value ∈ handed path arguments, (∃ n, value = .int n)
        ∨ ∃ part, Within part t ∧ part.lower structs = .ok value ∧ part.ty.isIterable = true := by
  intro path arguments mem value isHanded
  have annotated := isAnnotated_of_infer inferred
  have isHelper : path ∈ helpers := by
    by_contra other
    simp [handed, other] at isHanded
  rcases (t.isBuilt structs).lower lowered _ mem with ⟨u, used, rfl⟩ | passed
  · exact absurd isHelper (noHelper u used)
  · rcases passed value isHanded with ⟨s, part, inside, own, loweredPart⟩ | number
    · have inPart : Within part s := .part own.mem_children .root
      exact .inr ⟨part, inPart.trans inside, loweredPart,
        own.isIterable (annotated.within inside) (noFlag s inside) noStruct loweredPart⟩
    · exact .inl number

/-- `vec3(float(true))` hands over the number that the boolean is converted to. -/
theorem lower_hands_numbers_converted :
    let t := Expr.call "vec3" [.call "float" [.ofBool true] Ty.float] (Ty.vec .three)
    let value := Script.Expr.conditional (.bool true) (.int 1) (.int 0)
    t.lower .empty = .ok (.callOf "glsl.splat" [.int 3, value])
      ∧ ∃ part, Within part t ∧ part.lower .empty = .ok value ∧ part.ty.isIterable = true := by
  intro t value
  have inferred : t.infer ⟨SymbolTable.empty, none⟩ = .ok t := by rfl
  have lowered : t.lower .empty = .ok (.callOf "glsl.splat" [.int 3, value]) := by rfl
  have noFlag : ∀ s ∈ t.nodes, s.takesNoFlag = true := by decide
  have isHanded := lower_hands_numbers inferred lowered
    (fun s inside => noFlag s (mem_nodes.mpr inside)) (fun _ => rfl) (by decide) _ _
    List.mem_cons_self value
    (by simp [handed, helpers])
  rcases isHanded with ⟨n, same⟩ | found
  · simp only [value] at same
    cases same
  · exact ⟨lowered, found⟩

/-- `vec3(true)` hands over the boolean. -/
theorem lower_hands_boolean :
    let t := Expr.call "vec3" [.ofBool true] (Ty.vec .three)
    t.infer ⟨SymbolTable.empty, none⟩ = .ok t
      ∧ t.lower .empty = .ok (.callOf "glsl.vector" [.int 3, .bool true])
      ∧ .bool true ∈ handed "glsl.vector" [.int 3, .bool true]
      ∧ ∀ part, Within part t → part.lower .empty = .ok (.bool true) →
        part.ty.isIterable = false := by
  intro t
  refine ⟨rfl, rfl, by simp [handed, helpers], fun part inside same => ?_⟩
  rcases List.mem_cons.mp (mem_nodes.mpr inside) with rfl | inside
  · cases same
  · obtain rfl := List.mem_singleton.mp inside
    rfl

end Expr

end ShaderAlgebra
