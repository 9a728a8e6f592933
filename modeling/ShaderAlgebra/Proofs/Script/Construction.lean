import ShaderAlgebra.Proofs.Script.Operations

/-!
# Lowered parts and constructors

The scripts of selections, elements, copies and constructors stand for their values, where the
scripts of the operands do.

Constructors have the most forms: a script fills, copies, cuts or joins, by the number and the
shapes of the arguments. All forms but the first two agree with joining the components of the
arguments in order.
-/

namespace ShaderAlgebra.Script

open ShaderAlgebra.Value List

variable {u : Unspecified} {S : Setting} (standard : S.IsStandard)

include standard

/-! ## Parts -/

section Parts

variable {e i : Expr} {v w x : ShaderAlgebra.Value (.exact u)} {size : Dim} {place : Nat}

/-- The components that a selector picks. -/
lemma standsFor_readSwizzle {name : String} {s : Swizzle} {ty : Ty}
    (shaped : v.ty.shape? = some (.vector size)) (stands : StandsFor S e v)
    (parsed : Swizzle.parse? name = some s) (selected : s.resultType v.ty = .ok ty) :
    StandsFor S (readSwizzle e s.pattern) (v.field name) := by
  obtain ⟨inside, shown⟩ := represent_field (Ty.fits_of_shape? shaped) parsed selected
  have yields := stands.vector shaped
  refine ⟨_, shown, ?_⟩
  unfold readSwizzle
  split
  · next c single =>
    rw [single] at inside ⊢
    exact .index yields (yields_component standard c)
      (Value.element?_vector size v.part (inside _ (by simp)))
  · next pattern several =>
    have places : Forall₂ (Yields S) (s.pattern.map Expr.component)
        ((s.pattern.map Component.index).map fun place => .number (place : Nat)) := by
      rw [map_map, forall₂_map_left_iff, forall₂_map_right_iff]
      exact forall₂_same.mpr fun c _ => yields_component standard c
    have whole : picked v.part (s.pattern.map Component.index)
        = .array ((s.pattern.map Component.index).map v.part) := by
      unfold picked
      split
      · next place single =>
        obtain ⟨c, only, -⟩ := map_eq_singleton_iff.mp single
        exact absurd only (several c)
      · rfl
    rw [whole]
    exact yields_routine standard (.helper .swizzle) (.cons yields places)
      (Value.pick_vector size v.part inside)

omit standard in
/-- The script of an index yields the place. -/
lemma yields_place (stands : StandsFor S i w) (found : w.place? = some place) :
    Yields S i (.number place) :=
  stands.yields (part_of_place found)

omit standard in
/-- A component of a vector. -/
lemma standsFor_element (shaped : v.ty.shape? = some (.vector size)) (stands : StandsFor S e v)
    (standsIndex : StandsFor S i w) (found : w.place? = some place)
    (element : v.element? place = some x) : StandsFor S (.index e i) x := by
  obtain ⟨inside, shown⟩ := represent_element_vector (Ty.fits_of_shape? shaped) element
  exact ⟨_, shown, .index (stands.vector shaped) (yields_place standsIndex found)
    (Value.element?_vector size v.part inside)⟩

/-- A column of a matrix. -/
lemma standsFor_column (shaped : v.ty.shape? = some (.matrix size)) (stands : StandsFor S e v)
    (standsIndex : StandsFor S i w) (found : w.place? = some place)
    (element : v.element? place = some x) :
    StandsFor S (.callOf "glsl.column" [e, .dimension size, i]) x := by
  obtain ⟨inside, shown⟩ := represent_element_matrix (Ty.fits_of_shape? shaped) element
  refine ⟨_, shown, ?_⟩
  refine yields_routine standard (.helper .column) (.cons (stands.matrix shaped)
    (.cons (yields_dimension standard size) (.cons (yields_place standsIndex found) .nil))) ?_
  refine (sized_natCast _ size.count [.number place]).trans ?_
  simp only [onOne, Value.natural?_natCast, Option.bind_eq_bind, Option.bind_some]
  exact Value.slice_matrix size v.cell inside

/-- A copy. -/
lemma standsFor_copy {shape : Shape} (shaped : v.ty.shape? = some shape)
    (stands : StandsFor S e v) : StandsFor S (.copy shape e) v := by
  cases shape with
  | number | boolean => exact stands
  | vector =>
    exact ⟨_, represent_vector shaped,
      yields_vectorCall standard .clone (.cons (stands.vector shaped) .nil)
        (Value.mapVector_vector _ id _)⟩
  | matrix =>
    exact ⟨_, represent_matrix shaped,
      yields_matrixCall standard .clone (.cons (stands.matrix shaped) .nil)
        (Value.mapMatrix_matrix _ id _)⟩
  | aggregate => exact absurd shaped stands.notAggregate

end Parts

/-! ## Scalars -/

section Scalars

variable {e : Expr} {target : Kind}

/-- A scalar of one kind made from a scalar of another. -/
lemma standsFor_convertScalar {source : Kind} {x : source.Carrier (.exact u)}
    (stands : StandsFor S e (⟨.scalar source, x⟩ : ShaderAlgebra.Value (.exact u))) :
    StandsFor S (convertScalar (some target) (some source) e)
      (⟨.scalar target, (Arithmetic.exact u).convert source target x⟩ :
        ShaderAlgebra.Value (.exact u)) := by
  have zero : Yields S (.int 0) (.number 0) := by
    simpa using yields_int standard (n := 0) (by decide) (by decide)
  have one : Yields S (.int 1) (.number 1) := by
    simpa using yields_int standard (n := 1) (by decide) (by decide)
  cases source with
  | bool =>
    have yields := stands.boolean rfl
    obtain ⟨b, rfl⟩ : ∃ b : Bool, b = x := ⟨x, rfl⟩
    cases target with
    | bool => exact ⟨_, rfl, yields⟩
    | int | float =>
      cases b with
      | false => exact ⟨.number 0, rfl, .conditional yields zero⟩
      | true => exact ⟨.number 1, rfl, .conditional yields one⟩
  | int =>
    have yields := stands.number rfl
    cases target with
    | bool =>
      refine ⟨_, rfl, .binary yields zero (congrArg (some ∘ Value.boolean) ?_)⟩
      exact decide_not.trans (congrArg (! ·) (decide_eq_decide.mpr Int.cast_eq_zero))
    | int | float => exact ⟨_, rfl, yields⟩
  | float =>
    have yields := stands.number rfl
    cases target with
    | bool =>
      refine ⟨_, rfl, .binary yields zero (congrArg (some ∘ Value.boolean) ?_)⟩
      exact decide_not
    | int => exact ⟨_, rfl, yields_trunc standard yields⟩
    | float => exact ⟨_, rfl, yields⟩

/-- A scalar made from a value takes the first component. -/
lemma standsFor_constructScalar {v : ShaderAlgebra.Value (.exact u)} {shape : Shape}
    (shaped : v.ty.shape? = some shape) (stands : StandsFor S e v) :
    StandsFor S (constructScalar (some target) v.ty.kind? shape e)
      (.construct (.scalar target) [v]) := by
  have zero : Yields S (.int 0) (.number (0 : Nat)) := by
    simpa using yields_int standard (n := 0) (by decide) (by decide)
  -- Of a vector or a matrix the first number is converted.
  have ofFirst (kind : v.ty.kind? = some .float)
      (constructed : ShaderAlgebra.Value.construct (.scalar target) [v]
        = ⟨.scalar target, (Arithmetic.exact u).convert .float target (v.part 0)⟩)
      (first : Yields S (.index e (.int 0)) (.number (v.part 0))) :
      StandsFor S (convertScalar (some target) v.ty.kind? (.index e (.int 0)))
        (.construct (.scalar target) [v]) := by
    rw [kind, constructed]
    refine standsFor_convertScalar standard ?_
    exact ⟨.number (v.part 0), rfl, first⟩
  cases shape with
  | number =>
    obtain ⟨ty, x⟩ := v
    rcases Ty.fits_of_shape? shaped with rfl | rfl <;>
      exact standsFor_convertScalar standard stands
  | boolean =>
    obtain ⟨ty, x⟩ := v
    obtain rfl : ty = Ty.bool := Ty.fits_of_shape? shaped
    exact standsFor_convertScalar standard stands
  | vector size =>
    have typed : v.ty = .vec size := Ty.fits_of_shape? shaped
    have positive : 0 < size.count := by cases size <;> decide
    refine ofFirst (by rw [typed]; rfl) (construct_scalar (.inl typed)) ?_
    exact .index (stands.vector shaped) zero (Value.element?_vector size v.part positive)
  | matrix size =>
    have typed : v.ty = .mat size := Ty.fits_of_shape? shaped
    have positive : 0 < size.count := by cases size <;> decide
    refine ofFirst (by rw [typed]; rfl) (construct_scalar (.inr typed)) ?_
    have first := Value.element?_matrix size v.cell positive positive
    rw [Nat.zero_mul] at first
    exact .index (stands.matrix shaped) zero first
  | aggregate => exact absurd shaped stands.notAggregate

end Scalars

/-! ## Vectors and matrices -/

section Joined

variable {values : List Expr} {args : List (ShaderAlgebra.Value (.exact u))}
  {shapes : List Shape} {size : Dim}

omit standard in
/-- The scripts of the arguments yield what represents them. -/
lemma exists_yields (stands : Forall₂ (StandsFor S) values args) :
    ∃ xs, Forall₂ (Yields S) values xs ∧ Forall₂ (fun v x => v.represent = some x) args xs := by
  induction stands with
  | nil => exact ⟨[], .nil, .nil⟩
  | cons first _ ih =>
    obtain ⟨x, shown, yields⟩ := first
    obtain ⟨xs, all, representedAll⟩ := ih
    exact ⟨x :: xs, .cons yields all, .cons shown representedAll⟩

omit standard in
lemma mapM_items? {xs : List Value} (shown : Forall₂ (fun v x => v.represent = some x) args xs)
    (noBool : ∀ v ∈ args, v.ty ≠ Ty.bool) : xs.mapM Value.items? = some (args.map cells) := by
  induction shown with
  | nil => rfl
  | cons first _ ih =>
    have items := items?_of_represent first (noBool _ mem_cons_self)
    have rest := ih fun v mem => noBool v (mem_cons_of_mem _ mem)
    simp [items, rest]

omit standard in
/-- What joins the components of the arguments. -/
lemma concatenate_eq {xs : List Value} {count : Nat}
    (shown : Forall₂ (fun v x => v.represent = some x) args xs)
    (noBool : ∀ v ∈ args, v.ty ≠ Ty.bool) :
    Value.concatenate count xs = some (.array ((List.range count).map fun i =>
          (args.flatMap cells)[i]?.getD 0)) := by
  rw [Value.concatenate, mapM_items? shown noBool, flatMap_def, ← Value.fitted_eq]
  rfl

omit standard in
/-- A scalar that is no number is a boolean. -/
lemma number_or_bool {ty : Ty} (scalar : ty.isScalar) :
    ty.shape? = some .number ∨ ty = Ty.bool := by
  cases ty with
  | scalar kind => cases kind <;> simp [Ty.shape?, Ty.bool]
  | _ => cases scalar

omit standard in
/-- Shapes that are all those of numbers. -/
lemma numbers_of_shapes (shaped : Forall₂ (fun v shape => v.ty.shape? = some shape) args shapes)
    (numbers : shapes.all (· = .number)) : ∀ v ∈ args, v.ty.shape? = some .number := by
  induction shaped with
  | nil => simp
  | cons first _ ih =>
    simp only [all_cons, Bool.and_eq_true, decide_eq_true_eq] at numbers
    simp only [forall_mem_cons]
    exact ⟨numbers.1 ▸ first, ih numbers.2⟩

variable (stands : Forall₂ (StandsFor S) values args)

include stands

omit standard in
/-- Numbers bring one component each. -/
lemma yields_numbers (numbers : ∀ v ∈ args, v.ty.shape? = some .number) :
    Forall₂ (Yields S) values ((args.flatMap cells).map .number)
      ∧ (args.flatMap cells).length = args.length := by
  induction stands with
  | nil => exact ⟨.nil, rfl⟩
  | cons first _ ih =>
    have number := numbers _ mem_cons_self
    obtain ⟨rest, length⟩ := ih fun v mem => numbers v (mem_cons_of_mem _ mem)
    rw [flatMap_cons, cells_of_number number]
    exact ⟨.cons (first.number number) rest, by simp [length]⟩

/-- A vector of one number to a component. -/
lemma standsFor_gatheredVector (numbers : ∀ v ∈ args, v.ty.shape? = some .number)
    (length : args.length = size.count) :
    StandsFor S (.vectorCall size "fromValues" values) (.construct (.vec size) args) := by
  obtain ⟨yields, lengthOfItems⟩ := yields_numbers stands numbers
  have several : ∀ v, args = [v] → v.ty.isScalar = false := by
    rintro v rfl
    cases size <;> cases length
  refine ⟨_, represent_construct_vector several, ?_⟩
  refine yields_vectorCall standard .fromValues yields ?_
  rw [Value.vector, Value.range_map_getD (lengthOfItems.trans length)]
  exact Value.gather_number (lengthOfItems.trans length)

/-- A matrix of one number to a component. -/
lemma standsFor_gatheredMatrix (numbers : ∀ v ∈ args, v.ty.shape? = some .number)
    (length : args.length = size.count * size.count) :
    StandsFor S (.matrixCall size "fromValues" values) (.construct (.mat size) args) := by
  obtain ⟨yields, lengthOfItems⟩ := yields_numbers stands numbers
  have several : ∀ v, args = [v] → v.ty.isScalar = false ∧ v.ty.isMatrix = false := by
    rintro v rfl
    cases size <;> cases length
  refine ⟨_, represent_construct_matrix several, ?_⟩
  refine yields_matrixCall standard .fromValues yields ?_
  refine (Value.gather_number (lengthOfItems.trans length)).trans (congrArg some ?_)
  refine Eq.trans ?_ (Value.table_of_list size.count fun i =>
    (args.flatMap cells)[i]?.getD 0).symm
  rw [Value.range_map_getD (lengthOfItems.trans length)]

variable (noBool : ∀ v ∈ args, v.ty ≠ Ty.bool)

include noBool

/-- A vector that joins the components of its arguments. -/
lemma standsFor_joinedVector (several : ∀ v, args = [v] → v.ty.isScalar = false) :
    StandsFor S (.callOf "glsl.vector" (.dimension size :: values))
      (.construct (.vec size) args) := by
  obtain ⟨xs, yields, shown⟩ := exists_yields stands
  refine ⟨_, represent_construct_vector several, ?_⟩
  refine yields_routine standard (.helper .vector)
    (.cons (yields_dimension standard size) yields) ?_
  exact (sized_natCast Value.concatenate size.count xs).trans (concatenate_eq shown noBool)

/-- A matrix that joins the components of its arguments. -/
lemma standsFor_joinedMatrix
    (several : ∀ v, args = [v] → v.ty.isScalar = false ∧ v.ty.isMatrix = false) :
    StandsFor S (.callOf "glsl.matrix" (.dimension size :: values))
      (.construct (.mat size) args) := by
  obtain ⟨xs, yields, shown⟩ := exists_yields stands
  have noNumber (q : Rat) : xs ≠ [.number q] := by
    rintro rfl
    match args, shown with
    | [v], .cons first .nil =>
      have notScalar := (several v rfl).1
      have shape := shape?_of_represent first
      rcases Ty.fits_of_shape? shape with typed | typed <;> rw [typed] at notScalar <;>
        cases notScalar
  refine ⟨_, represent_construct_matrix several, ?_⟩
  refine yields_routine standard (.helper .matrix)
    (.cons (yields_dimension standard size) yields) ?_
  have joined : Value.fillMatrix size.count xs
      = Value.concatenate (size.count * size.count) xs := by
    unfold Value.fillMatrix
    split
    · next q => exact absurd rfl (noNumber q)
    · rfl
  refine (sized_natCast Value.fillMatrix size.count xs).trans ?_
  rw [joined, concatenate_eq shown noBool]
  exact congrArg some (Value.table_of_list size.count fun i =>
    (args.flatMap cells)[i]?.getD 0).symm

variable (shaped : Forall₂ (fun v shape => v.ty.shape? = some shape) args shapes)

include shaped

omit standard in
/-- What is neither one number nor one boolean is no single scalar. -/
lemma isScalar_eq_false (noNumber : ∀ value, shapes = [.number] → values = [value] → False) :
    ∀ v, args = [v] → v.ty.isScalar = false := by
  rintro v rfl
  obtain - | ⟨shape, ⟨⟩⟩ := shaped
  obtain - | ⟨first, ⟨⟩⟩ := stands
  by_contra scalar
  rcases number_or_bool (by simpa using scalar) with number | bool
  · cases shape.symm.trans number
    exact noNumber _ rfl rfl
  · exact noBool v (mem_singleton_self v) bool

/-- The script of a vector constructor. -/
lemma standsFor_constructVector :
    StandsFor S (constructVector size shapes values) (.construct (.vec size) args) := by
  unfold constructVector
  split
  · match args, shaped, stands with
    | [v], .cons shape .nil, .cons first .nil =>
      exact ⟨_, represent_construct_filled shape, yields_splat standard (first.number shape)⟩
  · next source value =>
    split
    · next same =>
      subst same
      match args, shaped, stands with
      | [v], .cons shape .nil, .cons first .nil =>
        obtain ⟨x, shown, yields⟩ := standsFor_copy standard shape first
        refine ⟨x, ?_, yields⟩
        rw [represent_construct_vector_self (Ty.fits_of_shape? shape)]
        exact shown
    · exact standsFor_joinedVector standard stands noBool
        (isScalar_eq_false stands noBool shaped (by simp))
  · next noNumber _ =>
    split
    · next gathered =>
      simp only [Bool.and_eq_true, decide_eq_true_eq] at gathered
      exact standsFor_gatheredVector standard stands (numbers_of_shapes shaped gathered.2)
        (shaped.length_eq.trans gathered.1)
    · exact standsFor_joinedVector standard stands noBool
        (isScalar_eq_false stands noBool shaped noNumber)

/-- The script of a matrix constructor. -/
lemma standsFor_constructMatrix :
    StandsFor S (constructMatrix size shapes values) (.construct (.mat size) args) := by
  unfold constructMatrix
  split
  · match args, shaped, stands with
    | [v], .cons shape .nil, .cons first .nil =>
      refine ⟨_, represent_construct_diagonal shape, ?_⟩
      exact yields_routine standard (.helper .matrix) (.cons (yields_dimension standard size)
        (.cons (first.number shape) .nil)) (sized_natCast Value.fillMatrix size.count _)
  · next source value =>
    match args, shaped, stands with
    | [v], .cons shape .nil, .cons first .nil =>
      split
      · next same =>
        subst same
        obtain ⟨x, shown, yields⟩ := standsFor_copy standard shape first
        refine ⟨x, ?_, yields⟩
        rw [represent_construct_matrix_self (Ty.fits_of_shape? shape)]
        exact shown
      · refine ⟨_, represent_construct_resized (Ty.fits_of_shape? shape), ?_⟩
        refine yields_routine standard (.helper .resize) (.cons (yields_dimension standard size)
          (.cons (yields_dimension standard source) (.cons (first.matrix shape) .nil))) ?_
        refine (sized_natCast _ size.count _).trans ((sized_natCast _ source.count _).trans ?_)
        exact Value.resizeMatrix_matrix source size.count v.cell
  · next noNumber noMatrix =>
    have several : ∀ v, args = [v] → v.ty.isScalar = false ∧ v.ty.isMatrix = false := by
      intro v one
      refine ⟨isScalar_eq_false stands noBool shaped noNumber v one, ?_⟩
      subst one
      obtain - | ⟨shape, ⟨⟩⟩ := shaped
      obtain - | ⟨first, ⟨⟩⟩ := stands
      cases typed : v.ty with
      | matrix cols rows =>
        rw [typed, Ty.shape?] at shape
        split at shape
        · cases shape
          exact (noMatrix _ _ rfl rfl).elim
        · cases shape
      | _ => rfl
    split
    · next gathered =>
      simp only [Bool.and_eq_true, decide_eq_true_eq] at gathered
      exact standsFor_gatheredMatrix standard stands (numbers_of_shapes shaped gathered.2)
        (shaped.length_eq.trans gathered.1)
    · exact standsFor_joinedMatrix standard stands noBool several

end Joined

end ShaderAlgebra.Script
