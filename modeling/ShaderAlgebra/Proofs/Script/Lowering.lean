import ShaderAlgebra.Proofs.Script.Construction
import ShaderAlgebra.Script.Lowering

/-!
# Values of lowered expressions

The expressions here are those over numbers, booleans, vectors of floats and square matrices that
neither write nor call a function (`Expr.IsAlgebraic`). The value of such an expression is defined
where every index that is read is in range and every divisor is nonzero (`Expr.IsDefined`). Where it
is, the script stands for it in every setting that gives the numerals and the variables their
meaning (`Expr.standsFor_lower`): there is one lemma for each form of expression, and the theorem is
the induction over the parts.
-/

namespace ShaderAlgebra

open List Script

/-! ## The expressions -/

/-- Whether the type is a scalar, a vector of floats or a square matrix. -/
def Ty.isFlat : Ty → Bool
  | .scalar _ => true
  | .vector _ kind => kind = .float
  | .matrix columns rows => columns = rows
  | _ => false

lemma Ty.exists_shape_of_isFlat {ty : Ty} (flat : ty.isFlat) :
    ∃ shape, ty.shape? = some shape ∧ shape ≠ .aggregate := by
  cases ty with
  | scalar kind => cases kind <;> exact ⟨_, rfl, by simp⟩
  | vector size kind =>
    obtain rfl : kind = .float := by simpa [isFlat] using flat
    exact ⟨_, rfl, by simp⟩
  | matrix cols rows =>
    obtain rfl : cols = rows := by simpa [isFlat] using flat
    exact ⟨_, if_pos rfl, by simp⟩
  | _ => cases flat

/-- A value of a flat type is represented. -/
lemma Value.exists_represent {u : Unspecified} {v : Value (.exact u)}
    (flat : v.ty.isFlat) : ∃ x, v.represent = some x := by
  obtain ⟨shape, shaped, single⟩ := Ty.exists_shape_of_isFlat flat
  unfold represent
  rw [shaped]
  cases shape with
  | aggregate => exact absurd rfl single
  | _ => exact ⟨_, rfl⟩

namespace Expr

variable {u : Unspecified} {es : List Expr} {I : Interpretation (.exact u)} {e : Expr}

/-- Whether the root neither writes nor calls anything but a constructor, and is no vector or matrix
made from a boolean. -/
def isAlgebraicNode : Expr → Bool
  | .assign .. => false
  | .call function arguments ty =>
    (Ty.ofName? function).isSome && (ty.isScalar || arguments.all fun e => e.ty ≠ Ty.bool)
  | _ => true

def IsAlgebraic (e : Expr) : Prop :=
  ∀ s, Within s e → s.ty.isFlat = true ∧ s.isAlgebraicNode = true

instance (e : Expr) : Decidable e.IsAlgebraic :=
  decidable_of_iff (∀ s ∈ e.nodes, s.ty.isFlat = true ∧ s.isAlgebraicNode = true)
    (by simp only [mem_nodes, IsAlgebraic])

/-! ## Where the value is defined -/

mutual

/-- Whether every index in the parts that are evaluated is in range, and every divisor in them has
no component that is zero. -/
def IsDefined (I : Interpretation (.exact u)) : Expr → Prop
  | .literal .. | .ident .. => True
  | .field base _ _ => IsDefined I base
  | .index base position _ =>
    IsDefined I base ∧ IsDefined I position
      ∧ ∃ place, (position.eval I).place? = some place
        ∧ ((base.eval I).element? place).isSome = true
  | .unary _ operand _ => IsDefined I operand
  | .binary op left right _ =>
    IsDefined I left ∧ (Script.decisive? op ≠ some (left.eval I).truth → IsDefined I right)
      ∧ (op = .divide ∨ op = .modulo → ∀ q ∈ (right.eval I).cells, q ≠ 0)
  | .call _ arguments _ => AreDefined I arguments
  | .conditional condition accept reject _ =>
    IsDefined I condition
      ∧ if (condition.eval I).truth then IsDefined I accept else IsDefined I reject
  | .assign _ target value _ => IsDefined I target ∧ IsDefined I value

def AreDefined (I : Interpretation (.exact u)) : List Expr → Prop
  | [] => True
  | e :: es => IsDefined I e ∧ AreDefined I es

end

lemma areDefined_iff : AreDefined I es ↔ ∀ e ∈ es, e.IsDefined I := by
  induction es with
  | nil => simp [AreDefined]
  | cons e es ih => simp [AreDefined, ih]

/-! ## Settings that suit an expression -/

/-- Whether a setting gives the numerals and the variables of an expression the meaning that they
have in the expression. -/
structure Suits (S : Script.Setting) (I : Interpretation (.exact u)) (e : Expr) : Prop where
  reads : ∀ value ty digits, Within (.literal value ty) e →
    Script.Expr.ofLiteral value = .number digits →
    S.reads digits ((Value.ofLiteral value : Value (.exact u)).part 0)
  scope : ∀ name ty, Within (.ident name ty) e →
    S.scope (Script.mangle name) = (⟨ty, I.read name ty⟩ : Value (.exact u)).represent

lemma Suits.part {S : Script.Setting} {part : Expr} (suits : Suits S I e)
    (mem : part ∈ e.children) : Suits S I part :=
  ⟨fun value ty digits inside => suits.reads value ty digits (.part mem inside),
    fun name ty inside => suits.scope name ty (.part mem inside)⟩

lemma IsAlgebraic.part {part : Expr} (algebraic : e.IsAlgebraic) (mem : part ∈ e.children) :
    part.IsAlgebraic :=
  fun s inside => algebraic s (.part mem inside)

/-! ## Opening lowering -/

lemma shape_eq_ok {shape : Shape} : e.shape = .ok shape ↔ e.ty.shape? = some shape := by
  unfold Expr.shape
  split
  · next found => simp [found]
  · next missing => simp [missing, Lowered.unrepresentable]

lemma shapes_eq_ok {shapes : List Shape} :
    Expr.shapes es = .ok shapes ↔ Forall₂ (fun e shape => e.ty.shape? = some shape) es shapes := by
  simp only [← shape_eq_ok]
  exact eq_ok_iff_forall₂ Expr.shapes rfl fun _ _ => rfl

lemma lowerAll_eq_ok {structs : StructTable} {js : List Script.Expr} :
    lowerAll structs es = .ok js ↔ Forall₂ (fun e j => e.lower structs = .ok j) es js :=
  eq_ok_iff_forall₂ (lowerAll structs) rfl fun _ _ => rfl

/-! ## Preservation -/

section Nodes

variable {S : Script.Setting} {I : Interpretation (.exact u)} {structs : StructTable}
  {j : Script.Expr} {ty : Ty}

open Script (StandsFor)

/-- The script of a literal is a numeral, or a truth value. -/
lemma standsFor_literal {value : Literal} (suits : Suits S I (.literal value ty))
    (lowered : (Expr.literal value ty).lower structs = .ok j) :
    StandsFor S j ((Expr.literal value ty).eval I) := by
  simp only [lower, bind_eq_ok, pure_eq_ok] at lowered
  obtain ⟨_, -, rfl⟩ := lowered
  cases value with
  | bool b => exact ⟨_, rfl, .bool b⟩
  | int n | float x => exact ⟨_, rfl, .number (suits.reads _ _ _ .root rfl)⟩

lemma standsFor_ident {name : String} (suits : Suits S I (.ident name ty))
    (flat : ty.isFlat) (lowered : (Expr.ident name ty).lower structs = .ok j) :
    StandsFor S j ((Expr.ident name ty).eval I) := by
  simp only [lower, bind_eq_ok, pure_eq_ok] at lowered
  obtain ⟨_, -, rfl⟩ := lowered
  obtain ⟨x, shown⟩ := Value.exists_represent (v := (Expr.ident name ty).eval I) flat
  exact ⟨x, shown, .ident ((suits.scope name ty .root).trans shown)⟩

section

variable (standard : S.IsStandard)

include standard

/-- A field of a flat value is a selection of components. -/
lemma standsFor_field {base : Expr} {name : String} (typed : (base.eval I).ty = base.ty)
    (flat : base.ty.isFlat) (fits : fieldType base.ty name = .ok ty)
    (stands : ∀ j, base.lower structs = .ok j → StandsFor S j (base.eval I))
    (lowered : (Expr.field base name ty).lower structs = .ok j) :
    StandsFor S j ((Expr.field base name ty).eval I) := by
  simp only [lower, bind_eq_ok] at lowered
  obtain ⟨_, -, object, loweredBase, rest⟩ := lowered
  have isVec : ∃ size, base.ty = .vec size := by
    cases h : base.ty with
    | vector size kind =>
      obtain rfl : kind = .float := by simpa [Ty.isFlat, h] using flat
      exact ⟨size, rfl⟩
    | scalar | matrix =>
      rw [h] at fits
      cases fits
    | _ =>
      rw [h] at flat
      cases flat
  obtain ⟨size, vec⟩ := isVec
  have isVector : base.ty.isVector := by rw [vec]; rfl
  rw [fieldType, if_pos isVector] at fits
  obtain ⟨s, parsed, selected⟩ := bind_eq_ok.mp fits
  simp only [isVector, if_true, parsed, pure_eq_ok] at rest
  subst rest
  have shaped : (base.eval I).ty.shape? = some (.vector size) := by
    rw [typed, vec]
    rfl
  rw [← typed] at selected
  exact standsFor_readSwizzle standard shaped (stands object loweredBase)
    (Swizzle.parse_eq_ok_iff.mp parsed) selected

/-- A component of a vector, or a column of a matrix. -/
lemma standsFor_index {base pos : Expr} (typed : (base.eval I).ty = base.ty)
    (fits : base.ty.element? = some ty)
    (standsBase : ∀ j, base.lower structs = .ok j → StandsFor S j (base.eval I))
    (standsPosition : ∀ j, pos.lower structs = .ok j → StandsFor S j (pos.eval I))
    (inRange : ∃ place, (pos.eval I).place? = some place ∧ ((base.eval I).element? place).isSome)
    (lowered : (Expr.index base pos ty).lower structs = .ok j) :
    StandsFor S j ((Expr.index base pos ty).eval I) := by
  simp only [lower, bind_eq_ok] at lowered
  obtain ⟨_, -, object, loweredBase, index, loweredIndex, shape, shaped, rest⟩ := lowered
  obtain ⟨place, found, some_⟩ := inRange
  obtain ⟨x, element⟩ := Option.isSome_iff_exists.mp some_
  have read : (Expr.index base pos ty).eval I = x := by
    simp [eval, Interpretation.index, found, element]
  have stands := standsBase object loweredBase
  have standsIndex := standsPosition index loweredIndex
  rw [shape_eq_ok, ← typed] at shaped
  rw [read]
  cases shape with
  | matrix size =>
    cases rest
    exact standsFor_column standard shaped stands standsIndex found element
  | vector size =>
    cases rest
    exact standsFor_element shaped stands standsIndex found element
  | number =>
    rcases Ty.fits_of_shape? shaped with scalar | scalar <;> rw [← typed, scalar] at fits <;>
      cases fits
  | boolean =>
    rw [← typed, show (base.eval I).ty = Ty.bool from Ty.fits_of_shape? shaped] at fits
    cases fits
  | aggregate => exact absurd shaped stands.notAggregate

/-- A value for a new variable is copied if it stands in another one. -/
lemma standsFor_stored {plain : Script.Expr}
    (typed : (e.eval I).ty = e.ty) (stands : StandsFor S plain (e.eval I))
    (stored : e.stored plain = .ok j) : StandsFor S j (e.eval I) := by
  unfold Expr.stored at stored
  split at stored
  · cases stored
    exact stands
  · simp only [bind_eq_ok, pure_eq_ok, shape_eq_ok, ← typed] at stored
    obtain ⟨shape, shaped, rfl⟩ := stored
    exact standsFor_copy standard shaped stands

lemma standsFor_conditional {cond accept reject : Expr}
    (typedCondition : (cond.eval I).ty = cond.ty)
    (typedAccept : (accept.eval I).ty = accept.ty) (typedReject : (reject.eval I).ty = reject.ty)
    (isBool : cond.ty = Ty.bool)
    (standsCondition : ∀ j, cond.lower structs = .ok j → StandsFor S j (cond.eval I))
    (standsAccept : (cond.eval I).truth →
      ∀ j, accept.lower structs = .ok j → StandsFor S j (accept.eval I))
    (standsReject : (cond.eval I).truth = false →
      ∀ j, reject.lower structs = .ok j → StandsFor S j (reject.eval I))
    (lowered : (Expr.conditional cond accept reject ty).lower structs = .ok j) :
    StandsFor S j ((Expr.conditional cond accept reject ty).eval I) := by
  simp only [lower, bind_eq_ok, pure_eq_ok] at lowered
  obtain ⟨_, -, test, loweredTest, accepted, loweredAccept, storedAccept, isStored, rejected,
    loweredReject, storedReject, isStored', rfl⟩ := lowered
  have yields := (standsCondition test loweredTest).boolean (by rw [typedCondition, isBool]; rfl)
  rw [eval]
  split
  · next truth =>
    obtain ⟨x, shown, value⟩ := standsFor_stored standard typedAccept
      (standsAccept truth accepted loweredAccept) isStored
    exact ⟨x, shown, .conditional yields (by rwa [if_pos truth])⟩
  · next notTruth =>
    obtain ⟨x, shown, value⟩ := standsFor_stored standard typedReject
      (standsReject (by simpa using notTruth) rejected loweredReject) isStored'
    exact ⟨x, shown, .conditional yields (by rwa [if_neg notTruth])⟩

end

omit S in
/-- What relates each of the arguments to an item relates their values to the items. -/
lemma forall₂_map_eval {α : Type} {R : Expr → α → Prop} {Q : Value (.exact u) → α → Prop}
    {items : List α} (related : Forall₂ R es items)
    (each : ∀ e ∈ es, ∀ item, R e item → Q (e.eval I) item) :
    Forall₂ Q (es.map (eval I)) items := by
  induction related with
  | nil => exact .nil
  | cons first _ ih =>
    exact .cons (each _ mem_cons_self _ first) (ih fun e mem => each e (mem_cons_of_mem _ mem))

/-- The script of a constructor. -/
lemma standsFor_constructor (standard : S.IsStandard) {function : String} {args : List Expr}
    (named : Ty.ofName? function = some ty) (flat : ty.isFlat)
    (typed : ∀ arg ∈ args, (arg.eval I).ty = arg.ty)
    (noBool : ty.isScalar ∨ ∀ arg ∈ args, arg.ty ≠ Ty.bool)
    (stands : ∀ arg ∈ args, ∀ j, arg.lower structs = .ok j → StandsFor S j (arg.eval I))
    (lowered : (Expr.call function args ty).lower structs = .ok j) :
    StandsFor S j ((Expr.call function args ty).eval I) := by
  simp only [lower, bind_eq_ok, named, Script.construct, shapes_eq_ok, lowerAll_eq_ok] at lowered
  obtain ⟨_, -, shapes, shaped, values, loweredAll, rest⟩ := lowered
  have constructed : (Expr.call function args ty).eval I = .construct ty (args.map (eval I)) := by
    simp only [eval, Interpretation.call, named, evalAll_eq]
  rw [constructed]
  have shapedValues : Forall₂ (fun v shape => v.ty.shape? = some shape)
      (args.map (eval I)) shapes :=
    forall₂_map_eval shaped fun arg mem shape shapedArgument => by rwa [typed arg mem]
  have standsAll : Forall₂ (StandsFor S) values (args.map (eval I)) :=
    (forall₂_map_eval (Q := fun v value => StandsFor S value v) loweredAll stands).flip
  have noBoolValue (several : ∀ arg ∈ args, arg.ty ≠ Ty.bool) :
      ∀ v ∈ args.map (eval I), v.ty ≠ Ty.bool := by
    simp only [mem_map]
    rintro _ ⟨arg, mem, rfl⟩
    rw [typed arg mem]
    exact several arg mem
  cases ty with
  | scalar target =>
    have one : ∃ arg shape value, args = [arg] ∧ shapes = [shape] ∧ values = [value]
        ∧ j = Script.constructScalar (some target) arg.ty.kind? shape value := by
      cases target <;> simp only [Ty.shape?] at rest <;> split at rest <;> cases rest <;>
        exact ⟨_, _, _, rfl, rfl, rfl, rfl⟩
    obtain ⟨arg, shape, value, rfl, rfl, rfl, rfl⟩ := one
    obtain ⟨shapedValue, -⟩ := forall₂_cons.mp shapedValues
    obtain ⟨standsValue, -⟩ := forall₂_cons.mp standsAll
    rw [← typed arg mem_cons_self]
    exact standsFor_constructScalar standard shapedValue standsValue
  | vector size kind =>
    obtain rfl : kind = .float := by simpa [Ty.isFlat] using flat
    cases rest
    have noBool := noBool.resolve_left (by simp [Ty.isScalar])
    exact standsFor_constructVector standard standsAll (noBoolValue noBool) shapedValues
  | matrix cols rows =>
    obtain rfl : cols = rows := by simpa [Ty.isFlat] using flat
    rw [Ty.shape?, if_pos rfl] at rest
    cases rest
    have noBool := noBool.resolve_left (by simp [Ty.isScalar])
    exact standsFor_constructMatrix standard standsAll (noBoolValue noBool) shapedValues
  | _ => cases flat

end Nodes

/-- The script of an expression stands for its value in every setting that suits it. -/
lemma standsFor_lower {S : Script.Setting} (standard : S.IsStandard) {site : Site}
    {structs : StructTable} (annotated : e.IsAnnotated site) (algebraic : e.IsAlgebraic)
    (suits : Suits S I e) (defined : e.IsDefined I) {j : Script.Expr}
    (lowered : e.lower structs = .ok j) : Script.StandsFor S j (e.eval I) := by
  induction e using Expr.induction generalizing j with
  | node e ih =>
    have typed (part : Expr) (mem : part ∈ e.children) : (part.eval I).ty = part.ty :=
      eval_ty I (annotated.part mem)
    have flat (part : Expr) (mem : part ∈ e.children) : part.ty.isFlat :=
      (algebraic part (.part mem .root)).1
    have stands (part : Expr) (mem : part ∈ e.children) (definedPart : part.IsDefined I)
        (j : Script.Expr) (loweredPart : part.lower structs = .ok j) :
        Script.StandsFor S j (part.eval I) :=
      ih part mem (annotated.part mem) (algebraic.part mem) (suits.part mem) definedPart loweredPart
    have fits := annotated.fits
    obtain ⟨flatRoot, algebraicRoot⟩ := algebraic e .root
    cases e with
    | literal value ty => exact standsFor_literal suits lowered
    | ident name ty => exact standsFor_ident suits flatRoot lowered
    | field base name ty =>
      exact standsFor_field standard (typed base mem_base) (flat base mem_base) fits
        (stands base mem_base defined) lowered
    | index base pos ty =>
      obtain ⟨definedBase, definedPosition, inRange⟩ := defined
      exact standsFor_index standard (typed base mem_indexed) fits.2
        (stands base mem_indexed definedBase) (stands pos mem_position definedPosition) inRange
        lowered
    | unary op operand ty =>
      simp only [lower, bind_eq_ok, pure_eq_ok, shape_eq_ok, ← typed operand mem_operand] at lowered
      obtain ⟨_, -, value, loweredOperand, shape, shaped, rfl⟩ := lowered
      have typedRoot : Ty.unary? op (operand.eval I).ty = some ty := by rwa [typed operand mem_operand]
      exact standsFor_unaryOf standard shaped (stands operand mem_operand defined _ loweredOperand)
        typedRoot
    | binary op left right ty =>
      obtain ⟨definedLeft, definedRight, nonzero⟩ := defined
      simp only [lower, bind_eq_ok, shape_eq_ok, ← typed left mem_left,
        ← typed right mem_right] at lowered
      obtain ⟨_, -, shapeL, shapedL, shapeR, shapedR, l, loweredLeft, r, loweredRight, rest⟩ :=
        lowered
      have typedRoot : Ty.binary? op (left.eval I).ty (right.eval I).ty
          = some (Expr.binary op left right ty).ty := by
        rwa [typed left mem_left, typed right mem_right]
      exact standsFor_binaryOf standard typedRoot shapedL shapedR
        (stands left mem_left definedLeft _ loweredLeft)
        (fun reached => stands right mem_right (definedRight reached) _ loweredRight) nonzero rest
    | call function args ty =>
      simp only [isAlgebraicNode, Bool.and_eq_true, Bool.or_eq_true, all_eq_true,
        decide_eq_true_eq] at algebraicRoot
      obtain ⟨isNamed, noBool⟩ := algebraicRoot
      obtain ⟨constructed, named⟩ := Option.isSome_iff_exists.mp isNamed
      obtain ⟨rfl, -⟩ := Site.Fits.constructor fits named
      rw [IsDefined, areDefined_iff] at defined
      exact standsFor_constructor standard named flatRoot typed noBool
        (fun arg mem => stands arg mem (defined arg mem)) lowered
    | conditional test accept reject ty =>
      obtain ⟨definedCondition, definedBranch⟩ := defined
      refine standsFor_conditional standard (typed _ mem_condition) (typed _ mem_accept)
        (typed _ mem_reject) fits.1 (stands _ mem_condition definedCondition) ?_ ?_ lowered
      · intro truth
        rw [if_pos truth] at definedBranch
        exact stands _ mem_accept definedBranch
      · intro truth
        rw [if_neg (by simp [truth])] at definedBranch
        exact stands _ mem_reject definedBranch
    | assign => cases algebraicRoot

end Expr

end ShaderAlgebra
