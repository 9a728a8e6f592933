import ShaderAlgebra.Proofs.Simplify.Cells

/-!
# Simplification keeps exact values

Every change that a rule other than constant folding makes keeps the value of the tree in exact
arithmetic, whatever its variables and functions mean, if there is no matrix in the tree and `pow`
has its two laws. So does simplification with those rules, since changes are made in place of one
another (`simplify_related`).
-/

namespace ShaderAlgebra

open Value List

variable {opd e new exp base : Expr} {site : Site} {ty s : Ty}

/-! ## Annotated trees without matrices -/

namespace Expr

/-- Annotated, and without a matrix anywhere. -/
def IsOrdinary (site : Site) (e : Expr) : Prop :=
  ∀ s, Within s e → site.Fits s ∧ s.ty.isMatrix = false

lemma isOrdinary_iff : e.IsOrdinary site ↔
      (site.Fits e ∧ e.ty.isMatrix = false) ∧ ∀ part ∈ e.children, part.IsOrdinary site :=
  forall_within_iff

namespace IsOrdinary

variable {site : Site} {e : Expr}

section

variable (ordinary : e.IsOrdinary site)

include ordinary

lemma isAnnotated : e.IsAnnotated site := fun s ins => (ordinary s ins).1

lemma notMatrix : e.ty.isMatrix = false := (ordinary e .root).2

lemma part {p : Expr} (mem : p ∈ e.children) : p.IsOrdinary site :=
  (isOrdinary_iff.mp ordinary).2 p mem

end

end IsOrdinary

/-- Without matrices, the changes that need a condition at matrices have it. -/
lemma IsOrdinary.keepsDividend {u : Unspecified} {I : Interpretation (.exact u)}
    (ordinary : e.IsOrdinary site) : e.KeepsDividend I := by
  unfold KeepsDividend
  split
  · intro mat
    simp [(ordinary.part mem_right).notMatrix] at mat
  · trivial

lemma IsOrdinary.collectsEvenly {op : BinaryOp} {left right : Expr}
    (ordinary : (Expr.binary op left right ty).IsOrdinary site) : CollectsEvenly left right := by
  rintro ⟨c, written, mat⟩
  have within : Within c (.binary op left right ty) := by
    rcases written with atLeft | atRight
    · exact .part mem_left ((splitTerm_within rfl).2 c atLeft)
    · exact .part mem_right ((splitTerm_within rfl).2 c atRight)
  simp [(ordinary c within).2] at mat

/-- What a change makes of an ordinary tree is ordinary. -/
lemma RewritesTo.isOrdinary (chg : RewritesTo e new) (ordinary : e.IsOrdinary site) :
    new.IsOrdinary site := by
  refine chg.forall_within ⟨fun _ => ⟨rfl, rfl⟩, fun _ => ⟨rfl, rfl⟩, ?_, ?_, ?_⟩ ordinary
  · intro s val ins named shp
    exact ⟨filled_fits named shp, (ordinary s ins).2⟩
  · intro op opd ty own typed
    exact ⟨typed, Ty.unary?_eq typed ▸ own.2⟩
  · intro op left right ty fst snd typed
    exact ⟨typed, Ty.isMatrix_binary? typed fst.2 snd.2⟩

end Expr

/-! ## Powers -/

/-- The laws of `pow` that the rules rely on: a power of zero is one, and a power of one is the
base. -/
structure Interpretation.PowLaws {u : Unspecified} (I : Interpretation (.exact u)) : Prop where
  zero : ∀ {x y : Value (.exact u)} {ty : Ty}, ty.isGenericFloat = true →
    x.ty.convertsTo ty = true → y.ty.convertsTo ty = true → y.IsFilled 0 →
      (⟨ty, I.function "pow" [x, y] ty⟩ : Value (.exact u)).IsFilled 1
  one : ∀ {x y : Value (.exact u)} {ty : Ty}, ty.isGenericFloat = true →
    x.ty.convertsTo ty = true → y.ty.convertsTo ty = true → y.IsFilled 1 →
      ⟨ty, I.function "pow" [x, y] ty⟩ = x.convertTo ty

lemma Builtin.eq_name_of_ofName? {name : String} {bi : Builtin}
    (found : Builtin.ofName? name = some bi) : name = bi.name := by
  have same := find?_some found
  simpa using (beq_iff_eq.mp same).symm

/-- The built-in `pow` takes and gives `float` or a float vector. -/
lemma Builtin.resolve_pow {base exp : Ty} (res : Builtin.pow.resolve [base, exp] = .ok ty) :
    ty.isGenericFloat ∧ base.convertsTo ty ∧ exp.convertsTo ty := by
  simp only [Builtin.resolve, Builtin.signatures, Builtin.onFloats, findSome?_cons,
    findSome?_nil, Signature.resolve?] at res
  cases bound : Signature.bind? false base with
  | none => simp [Signature.binder?, bound] at res
  | some gen =>
    have isGen : gen.isGenericFloat := by
      unfold Signature.bind? at bound
      split at bound <;> simp_all <;> subst bound <;> rfl
    simp only [Signature.binder?, Signature.fits, Signature.resultType?] at res
    by_cases converts : base.convertsTo gen ∧ exp.convertsTo gen
    · simp [converts.1, converts.2, bound] at res
      subst res
      exact ⟨isGen, converts⟩
    · simp [bound] at res
      grind

/-- A struct is not one of its own members. -/
lemma Ty.struct_notMem {name own : String} {mems : List (String × Ty)} :
    (own, Ty.struct name mems) ∉ mems := by
  intro mem
  have small := sizeOf_lt_of_mem mem
  simp only [Prod.mk.sizeOf_spec, Ty.struct.sizeOf_spec] at small
  omega

/-- A call of `pow` is one of the built-in function, unless a struct of that name is declared. -/
lemma Site.Fits.pow (fits : site.Fits (.call "pow" [base, exp] ty)) :
    (ty.isGenericFloat ∧ base.ty.convertsTo ty ∧ exp.ty.convertsTo ty)
      ∨ ∃ name mems, ty = .struct name mems ∧ base.ty ≠ ty := by
  have notTy : Ty.ofName? "pow" = none := by rfl
  have bi : Builtin.ofName? "pow" = some .pow := by rfl
  simp only [Fits, callType_eq_ok, notTy, bi, map_cons, map_nil] at fits
  cases decl : site.symbols.structType? "pow" with
  | none => exact .inl (Builtin.resolve_pow (by simpa only [decl] using fits))
  | some named =>
    right
    obtain ⟨acc, rfl⟩ := by simpa only [decl] using fits
    obtain ⟨name, mems, rfl, counts, conv⟩ := Ty.constructStruct_eq_ok.mp acc
    refine ⟨name, mems, rfl, fun same => ?_⟩
    cases mems with
    | nil => cases counts
    | cons member rest =>
      obtain ⟨own, memberTy⟩ := member
      have fst : base.ty.convertsTo memberTy := by
        simp only [zip_cons_cons, all_cons, Bool.and_eq_true] at conv
        exact conv.1
      rw [same] at fst
      have equal : Ty.struct name ((own, memberTy) :: rest) = memberTy := by
        simpa [Ty.convertsTo] using fst
      refine @Ty.struct_notMem name own ((own, memberTy) :: rest) ?_
      rw [equal]
      exact mem_cons_self

/-- What converts to a `float` or a float vector is a scalar or vector of numbers. -/
lemma Ty.isPlain_of_convertsTo {src tgt : Ty} (gen : tgt.isGenericFloat)
    (conv : src.convertsTo tgt) : src.IsPlain := by
  rcases Ty.convertsTo_iff.mp conv with rfl | ⟨size, rfl, -⟩
  · unfold Ty.isGenericFloat at gen
    split at gen
    · exact ⟨none, .float, rfl, rfl⟩
    · next size => exact ⟨some size, .float, rfl, rfl⟩
    · cases gen
  · exact Ty.isPlain_plain rfl

namespace Expr

section Changes

variable {u : Unspecified} {I : Interpretation (.exact u)} {site : Site} {ty : Ty}

lemma eval_pow (I : Interpretation (.exact u)) (base exp : Expr) (ty : Ty) :
    (Expr.call "pow" [base, exp] ty).eval I
      = ⟨ty, I.function "pow" [base.eval I, exp.eval I] ty⟩ := by
  have notTy : Ty.ofName? "pow" = none := by rfl
  simp only [eval, Interpretation.call, notTy, evalAll]

lemma eval_power_one (pow : I.PowLaws)
    (ann : (Expr.call "pow" [base, exp] ty).IsAnnotated site) (same : base.ty = ty)
    (one : exp.isOne) : base.eval I = (Expr.call "pow" [base, exp] ty).eval I := by
  have typeBase := eval_ty I (ann.part mem_first)
  have tyExp := eval_ty I (ann.part mem_second)
  rcases ann.fits.pow with ⟨gen, base', exp'⟩ | ⟨_, _, _, oth⟩
  · have plain := Ty.isPlain_of_convertsTo gen exp'
    rw [eval_pow, pow.one gen (typeBase ▸ base') (tyExp ▸ exp')
      (isFilled_of_isOne I plain one), Value.convertTo, if_pos (typeBase.trans same)]
  · exact absurd same oth

lemma eval_power_zero (pow : I.PowLaws) (ann : (Expr.call "pow" [base, exp] ty).IsAnnotated site)
    (annNew : new.IsAnnotated site) (same : new.ty = ty) (zero : exp.isZero)
    (found : one? ty = some new) : new.eval I = (Expr.call "pow" [base, exp] ty).eval I := by
  have typeBase := eval_ty I (ann.part mem_first)
  have tyExp := eval_ty I (ann.part mem_second)
  have typeNew : (new.eval I).ty = ty := (eval_ty I annNew).trans same
  rcases ann.fits.pow with ⟨gen, base', exp'⟩ | ⟨_, _, rfl, _⟩
  · have plain := Ty.isPlain_of_convertsTo gen exp'
    have plainTy : ty.IsPlain := Ty.isPlain_of_convertsTo gen (by simp [Ty.convertsTo])
    rw [eval_pow]
    refine (isFilled_one? I plainTy found).unique ?_ typeNew (typeNew ▸ plainTy)
    exact pow.zero gen (typeBase ▸ base') (tyExp ▸ exp') (isFilled_of_isZero I plain zero)
  · cases found

lemma eq_of_binaryOf {op : BinaryOp} {left right : Expr} (built : binaryOf op left right = .ok new)
    (same : new.ty = ty) : new = .binary op left right ty := by
  obtain ⟨_, -, rfl⟩ := binaryOf_eq_ok.mp built
  exact congrArg _ same

/-- A change keeps the value, if it keeps the type: at a matrix under a condition, and at a call of
`pow` if that has its laws. -/
lemma RewritesTo.eval_eq (chg : RewritesTo e new) (ann : e.IsAnnotated site) (same : new.ty = e.ty)
    (pow : (∃ fn args ty, e = .call fn args ty) → I.PowLaws) (keeps : e.KeepsDividend I)
    (even : ∀ op left right ty, e = .binary op left right ty → CollectsEvenly left right) :
    new.eval I = e.eval I := by
  have annNew : new.IsAnnotated site := chg.forall_within (endures_fits site _) ann
  cases chg
  -- What is built is a node of the old type.
  case' literalFirst built | nestLeft built | double built | collect built =>
    obtain rfl := eq_of_binaryOf built same
  case addZero | zeroAdd | addNegated | negatedAdd =>
    exact eval_identity_linear (.inl rfl) ann annNew same
      (by simp_all [binaryCandidates, provided, combined?, Except.toOption])
  case subtractZero | zeroSubtract | subtractNegated =>
    exact eval_identity_linear (.inr rfl) ann annNew same
      (by simp_all [binaryCandidates, provided, combined?, negation?, Except.toOption])
  case multiplyOne | oneMultiply | multiplyZero | minusOneMultiply | multiplyMinusOne
      | multiplyNegations =>
    exact eval_identity_multiply ann annNew same
      (by simp_all [binaryCandidates, provided, combined?, negation?, Except.toOption])
  case divideOne one => exact (eval_divided_iff ann same one).mpr keeps
  case twice => exact eval_twice ann
  case powerOne power one =>
    obtain rfl := Builtin.eq_name_of_ofName? power
    exact eval_power_one (pow ⟨_, _, _, rfl⟩) ann same one
  case powerZero power zero found =>
    obtain rfl := Builtin.eq_name_of_ofName? power
    exact eval_power_zero (pow ⟨_, _, _, rfl⟩) ann annNew same zero found
  case choose condition _ _ _ _ => cases condition <;> rfl
  case either agree => simp only [eval, ← eval_agrees I agree, ite_self]
  case literalFirst _ nmL nmR _ _ => exact eval_exchange ann annNew nmL nmR
  case nestLeft either _ nmA _ nmB nmC inner =>
    obtain ⟨t, -, rfl⟩ := binaryOf_eq_ok.mp inner
    rcases either with rfl | rfl
    · exact eval_nest_left .add calculates_add add_assoc ann annNew nmA nmB nmC
    · exact eval_nest_left .multiply calculates_multiply mul_assoc ann annNew nmA nmB nmC
  case double agree found =>
    refine eval_like (.inl rfl) calculates_add ann annNew rfl agree fun own col row onL => ?_
    rw [annNew.cell_multiple_left (own ▸ onL.inside) (holds_of_twoFor? found)
      (Ty.convertsTo_iff.mpr (.inl own.symm)), ← two_mul]
    norm_num
  case cancel agree found =>
    refine eval_like (.inr rfl) calculates_subtract ann annNew same agree fun own col row onL => ?_
    have whole : new.HasCell site col row :=
      ⟨annNew, (same.trans own) ▸ onL.numeric, (same.trans own) ▸ onL.inside⟩
    rw [whole.cell_of_holds (holds_of_zero? (own ▸ onL.numeric) found), sub_self, Int.cast_zero,
      Ty.splat_zero]
  case collect either splitL splitR agree first second sum =>
    obtain ⟨s, -, rfl⟩ := binaryOf_eq_ok.mp sum
    rcases either with rfl | rfl
    · exact eval_collected (.inl rfl) calculates_add Ty.Pairing.sum_add ann annNew splitL splitR
        agree first second (even _ _ _ _ rfl)
    · exact eval_collected (.inr rfl) calculates_subtract Ty.Pairing.sum_sub ann annNew splitL
        splitR agree first second (even _ _ _ _ rfl)

end Changes

end Expr

/-! ## Simplification -/

namespace Rules

section Kept

variable {u : Unspecified} {I : Interpretation (.exact u)} {site : Site}

/-- What simplification without constant folding keeps of an ordinary tree: it stays one, its root
keeps its type and still denotes storage if it did, and it has the same value. -/
def KeepsValue (I : Interpretation (.exact u)) (site : Site) (e new : Expr) : Prop :=
  e.IsOrdinary site →
    new.IsOrdinary site ∧ new.ty = e.ty ∧ (e.isLvalue = true → new.isLvalue = true)
      ∧ new.eval I = e.eval I

lemma KeepsValue.refl (e : Expr) : KeepsValue I site e e := fun ordinary => ⟨ordinary, rfl, id, rfl⟩

lemma KeepsValue.trans {a b c : Expr} (fst : KeepsValue I site a b)
    (snd : KeepsValue I site b c) : KeepsValue I site a c := by
  intro ordinary
  obtain ⟨ordinaryB, typeB, storageB, valueB⟩ := fst ordinary
  obtain ⟨ordinaryC, typeC, storageC, valueC⟩ := snd ordinaryB
  exact ⟨ordinaryC, typeC.trans typeB, fun lvalue => storageC (storageB lvalue),
    valueC.trans valueB⟩

lemma KeepsValue.mapParts {f : Expr → Expr}
    (parts : ∀ part ∈ e.children, KeepsValue I site part (f part)) :
    KeepsValue I site e (e.mapParts f) := by
  intro ordinary
  have kept : ∀ part ∈ e.children, _ := fun part mem => parts part mem (ordinary.part mem)
  have typing : KeepsTyping site e (e.mapParts f) := .mapParts fun part mem _ =>
    ⟨(kept part mem).1.isAnnotated, (kept part mem).2.1, (kept part mem).2.2.1⟩
  obtain ⟨ann, sameTy, stor⟩ := typing ordinary.isAnnotated
  refine ⟨Expr.isOrdinary_iff.mpr ⟨⟨ann.fits, sameTy ▸ ordinary.notMatrix⟩, ?_⟩, sameTy,
    stor, Expr.eval_mapParts fun part mem => (kept part mem).2.2.2⟩
  intro part mem
  rw [Expr.children_mapParts] at mem
  obtain ⟨old, ins, rfl⟩ := mem_map.mp mem
  exact (kept old ins).1

lemma KeepsValue.apply {rule : Rule} (pow : I.PowLaws) (oth : rule ≠ .constantFolding)
    (applied : rule.apply e = some new) : KeepsValue I site e new := by
  intro ordinary
  have chg := Expr.candidate?_rewrites oth (Rule.apply_eq_some applied).1
  obtain ⟨-, sameTy, stor⟩ := KeepsTyping.apply applied ordinary.isAnnotated
  refine ⟨chg.isOrdinary ordinary, sameTy, stor, chg.eval_eq ordinary.isAnnotated sameTy
    (fun _ => pow) ordinary.keepsDividend ?_⟩
  rintro op left right ty rfl
  exact ordinary.collectsEvenly

/-- Simplification with any rules but constant folding keeps the value of an ordinary tree. -/
lemma simplify_keepsValue {rules : Rules} (pow : I.PowLaws) (noFolding : .constantFolding ∉ rules)
    (e : Expr) : KeepsValue I site e (rules.simplify e).result := by
  refine simplify_related KeepsValue.refl KeepsValue.trans KeepsValue.mapParts ?_ e
  intro rule mem _ _ applied
  exact KeepsValue.apply pow (fun folding => noFolding (folding ▸ mem)) applied

end Kept

/-- Simplifying an annotated tree without matrices, with every rule but constant folding, keeps its
exact value: whatever the variables and functions mean, and whatever division by zero is read as. -/
theorem eval_simplify {u : Unspecified} {site : Site} {e t : Expr} (inferred : e.infer site = .ok t)
    (noMatrix : ∀ s, Expr.Within s t → s.ty.isMatrix = false) (I : Interpretation (.exact u))
    (pow : I.PowLaws) :
    (simplify [.algebraicIdentities, .conditionalElimination, .reassociation, .likeTerms] t
      ).result.eval I = t.eval I := by
  have ordinary : t.IsOrdinary site := fun s inside =>
    ⟨Expr.isAnnotated_of_infer inferred s inside, noMatrix s inside⟩
  exact (simplify_keepsValue pow (by decide) t ordinary).2.2.2

end Rules

/-- An interpretation in which every variable is three and `pow` knows the powers of zero and one.
-/
def Interpretation.threes (u : Unspecified) : Interpretation (.exact u) where
  read := fun _ ty =>
    (Value.build ty fun kind _ _ => (Arithmetic.exact u).convert .int kind (3 : Int)).dataAs ty
  function := fun _ arguments ty =>
    match arguments with
    | [x, y] =>
      let ones : Value (.exact u) :=
        .build ty fun kind _ _ => (Arithmetic.exact u).convert .int kind (1 : Int)
      (if y.part 0 = 0 then ones else x.convertTo ty).dataAs ty
    | _ => Value.zeroData ty
  beyond := fun _ _ ty => Value.zeroData ty

lemma Interpretation.threes_powLaws (u : Unspecified) : (threes u).PowLaws := by
  constructor
  · intro x y ty gen _ _ zero
    have fst : y.part 0 = 0 := zero 0 y.ty.hasRow_zero
    have plain : ty.IsPlain := Ty.isPlain_of_convertsTo gen (by simp [Ty.convertsTo])
    obtain ⟨size, kind, rfl, num⟩ := plain
    have known : (Ty.plain size kind).kind?.isSome := by cases size <;> rfl
    intro row ins
    simp only [threes, fst, if_true]
    rw [mk_dataAs (ty_build known), part_build ins (fun _ => rfl)]
    cases kind with
    | bool => cases num
    | int | float => exact Int.cast_one
  · intro x y ty _ conv _ one
    have fst : y.part 0 ≠ 0 := by
      rw [one 0 y.ty.hasRow_zero]
      exact one_ne_zero
    simp only [threes, fst, if_false]
    exact mk_dataAs (ty_convertTo conv)

namespace Rules

/-- `pow(x, 1.0) + n * x`, with an integer factor `n`, becomes `(1 + n) * x`. -/
theorem eval_simplify_power :
    let u : Unspecified := ⟨fun a => a, fun a => a, fun a => a, 0, 0⟩
    let symbols := ((SymbolTable.empty.declare "x" Ty.float).2.declare "n" Ty.int).2
    let x := Expr.ident "x" Ty.float
    let power := Expr.call "pow" [x, .ofFloat (Floating.unit false)] Ty.float
    let multiple := Expr.binary .multiply (.ident "n" Ty.int) x Ty.float
    let t := Expr.binary .add power multiple Ty.float
    t.infer ⟨symbols, none⟩ = .ok t
      ∧ (simplify [.algebraicIdentities, .conditionalElimination, .reassociation, .likeTerms] t
        ).result.eval (.threes u) = t.eval (.threes u) := by
  intro u symbols x power multiple t
  have inferred : t.infer ⟨symbols, none⟩ = .ok t := by rfl
  have noMatrix : ∀ s, Expr.Within s t → s.ty.isMatrix = false :=
    Expr.within_pair rfl rfl
      (Expr.within_pair rfl rfl (Expr.within_leaf rfl rfl) (Expr.within_leaf rfl rfl))
      (Expr.within_pair rfl rfl (Expr.within_leaf rfl rfl) (Expr.within_leaf rfl rfl))
  exact ⟨inferred, eval_simplify inferred noMatrix (.threes u) (Interpretation.threes_powLaws u)⟩

end Rules

end ShaderAlgebra
