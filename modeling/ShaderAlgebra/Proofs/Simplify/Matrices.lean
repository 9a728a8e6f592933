import ShaderAlgebra.Proofs.Simplify.Values

/-!
# Rules at matrices

Two of the rules do not always keep the value of a node that has to do with matrices. Here is when
they do.

The identities look for zeros and ones, and for a matrix a one is the identity: it has ones on its
diagonal and zeros beside it. That is the unit of the product, which is that of linear algebra, and
a zero is a zero in every operation. Division, however, is component-wise, so a matrix that is
divided by the identity is divided by zero beside the diagonal, and the identity that leaves the
divisor out is wrong there. It is the only one: `algebraicIdentities_eval_iff` says when an identity
keeps the value of a node with a matrix for an operand.

Like terms are put together by adding their coefficients. A number is added to every component of a
matrix, but a product with the number is one with the number times the identity, and where a
coefficient is missing the identity stands for it, which is not what a number counts in a sum with a
matrix. `likeTerms_eval` says where it makes no difference (`CollectsEvenly`).
-/

namespace ShaderAlgebra

open List ShaderAlgebra.Expr

/-! ## Identities -/

/-- An identity that is found at a node with a matrix for an operand keeps the value, unless it is
division by a matrix that is a one. That keeps it if and only if division by zero does nothing to
the components beside the diagonal. -/
theorem algebraicIdentities_eval_iff {u : Unspecified} {I : Interpretation (.exact u)} {site : Site}
    {e new : Expr} (ann : e.IsAnnotated site)
    (mat : ∃ part ∈ e.children, part.ty.isMatrix = true)
    (applied : Rule.algebraicIdentities.apply e = some new) :
    new.eval I = e.eval I ↔ e.KeepsDividend I := by
  have annNew := Rule.forall_within_apply (endures_fits site _) ann applied
  obtain ⟨mem, same⟩ := mem_identityCandidates (Rule.apply_eq_some applied).1
  unfold identityCandidates at mem
  split at mem
  · next op left right ty =>
    cases op with
    | add => exact iff_of_true (eval_identity_linear (.inl rfl) ann annNew same mem) trivial
    | subtract =>
      exact iff_of_true (eval_identity_linear (.inr rfl) ann annNew same mem) trivial
    | multiply => exact iff_of_true (eval_identity_multiply ann annNew same mem) trivial
    | divide =>
      simp only [binaryCandidates, mem_singleton, eq_comm (a := some new), provided_eq_some,
        Option.some.injEq] at mem
      obtain ⟨one, rfl⟩ := mem
      exact eval_divided_iff ann same one
    | _ => simp [binaryCandidates] at mem
  · obtain rfl := by simpa using mem
    exact iff_of_true (eval_twice ann) trivial
  · obtain rfl := by simpa using mem
    exact iff_of_true (eval_twice ann) trivial
  · next fn base exp ty =>
    split at mem
    · next pow =>
      obtain rfl := Builtin.eq_name_of_ofName? pow
      exfalso
      rcases Site.Fits.pow ann.fits with ⟨gen, convB, convE⟩ | ⟨name, mems, rfl, differs⟩
      · have nm : ty.isMatrix = false := by cases ty <;> first | rfl | cases gen
        simp [children, Ty.isMatrix_of_convertsTo convB nm,
          Ty.isMatrix_of_convertsTo convE nm] at mat
      · simp only [mem_singleton, powerCandidate] at mem
        split at mem
        · cases mem
          exact differs same
        · simp [provided, one?, constant?] at mem
    · cases mem
  · cases mem

/-- A divisor that is the identity is left out. -/
lemma algebraicIdentities_divide :
    let m := Expr.ident "m" (.mat .two)
    Rule.algebraicIdentities.apply
      (.binary .divide m (.call "mat2" [.ofInt 1] (.mat .two)) (.mat .two)) = some m := by
  have one : (Expr.call "mat2" [.ofInt 1] (.mat .two)).isOne := by decide +kernel
  simp [Rule.apply, Rule.candidate?, identity?, identityCandidates, binaryCandidates, provided, one,
    Rule.accepts, agrees, Expr.ty]

/-- A matrix divided by the identity, where a number divided by zero is the number. -/
theorem algebraicIdentities_eval_iff_divided :
    let u : Unspecified := ⟨fun a => a, fun a => a, fun a => a, 0, 0⟩
    let m := Expr.ident "m" (.mat .two)
    let e := Expr.binary .divide m (.call "mat2" [.ofInt 1] (.mat .two)) (.mat .two)
    Rule.algebraicIdentities.apply e = some m ∧ m.eval (.threes u) = e.eval (.threes u) := by
  intro u m e
  let site : Site := ⟨(SymbolTable.empty.declare "m" (.mat .two)).2, none⟩
  have ann : e.IsAnnotated site := Expr.isAnnotated_of_infer (e := e) (by rfl)
  exact ⟨algebraicIdentities_divide, (algebraicIdentities_eval_iff ann ⟨m, mem_left, rfl⟩
    algebraicIdentities_divide).mpr fun _ _ _ _ _ => rfl⟩

/-- Where a number divided by zero is zero, the same change does not keep the value. -/
theorem algebraicIdentities_divided_by_identity :
    let u : Unspecified := ⟨fun a => a, fun a => a, fun _ => 0, 0, 0⟩
    let m := Expr.ident "m" (.mat .two)
    let e := Expr.binary .divide m (.call "mat2" [.ofInt 1] (.mat .two)) (.mat .two)
    Rule.algebraicIdentities.apply e = some m ∧ m.eval (.threes u) ≠ e.eval (.threes u) := by
  intro u m e
  refine ⟨algebraicIdentities_divide, fun same => ?_⟩
  have beside : (3 : Rat) = 0 := congrArg (Value.cell · 0 1) same
  norm_num at beside

/-! ## Like terms -/

/-- Collecting like terms keeps the value of a sum or difference, if no coefficient is a matrix or
the terms count evenly. -/
theorem likeTerms_eval {u : Unspecified} {I : Interpretation (.exact u)} {site : Site}
    {op : BinaryOp} {left right new : Expr} {ty : Ty}
    (ann : (Expr.binary op left right ty).IsAnnotated site)
    (applied : Rule.likeTerms.apply (.binary op left right ty) = some new)
    (even : CollectsEvenly left right) :
    new.eval I = (Expr.binary op left right ty).eval I := by
  have found : (Expr.binary op left right ty).collected? = some new :=
    (Rule.apply_eq_some applied).1
  have keeps : (Expr.binary op left right ty).KeepsDividend I := by
    cases op with
    | divide => cases found
    | _ => trivial
  refine (collected?_rewrites found).eval_eq ann (Rule.ty_of_apply ann.fits applied)
    (fun ⟨_, _, _, isCall⟩ => by cases isCall) keeps ?_
  rintro _ _ _ _ ⟨⟩
  exact even

/-- `x * y + m * y` becomes `(x + m) * y`. -/
theorem likeTerms_eval_scalars :
    let u : Unspecified := ⟨fun a => a, fun a => a, fun a => a, 0, 0⟩
    let x := Expr.ident "x" Ty.float
    let y := Expr.ident "y" Ty.float
    let m := Expr.ident "m" (.mat .two)
    let e := Expr.binary .add (.binary .multiply x y Ty.float) (.binary .multiply m y (.mat .two))
      (.mat .two)
    let new := Expr.binary .multiply (.binary .add x m (.mat .two)) y (.mat .two)
    Rule.likeTerms.apply e = some new ∧ new.eval (.threes u) = e.eval (.threes u) := by
  intro u x y m e new
  let syms := ((SymbolTable.empty.declare "x" Ty.float).2.declare "y" Ty.float).2
  let site : Site := ⟨(syms.declare "m" (.mat .two)).2, none⟩
  have ann : e.IsAnnotated site := Expr.isAnnotated_of_infer (e := e) (by rfl)
  have applied : Rule.likeTerms.apply e = some new := by rfl
  exact ⟨applied, likeTerms_eval ann applied fun _ => ⟨fun _ => rfl, fun _ => rfl⟩⟩

/-- `x * v + m * v` becomes `(x + m) * v`, where the number is added to every component of the matrix
and not to its diagonal. -/
theorem likeTerms_scalar_beside_matrix :
    let u : Unspecified := ⟨fun a => a, fun a => a, fun a => a, 0, 0⟩
    let x := Expr.ident "x" Ty.float
    let m := Expr.ident "m" (.mat .two)
    let v := Expr.ident "v" (.vec .two)
    let e := Expr.binary .add (.binary .multiply x v (.vec .two)) (.binary .multiply m v (.vec .two))
      (.vec .two)
    let new := Expr.binary .multiply (.binary .add x m (.mat .two)) v (.vec .two)
    Rule.likeTerms.apply e = some new ∧ new.eval (.threes u) ≠ e.eval (.threes u) := by
  intro u x m v e new
  refine ⟨by rfl, fun same => ?_⟩
  let three : Rat := ((3 : Int) : Rat)
  have fst : 0 + (three + three) * three + (three + three) * three
      = three * three + (0 + three * three + three * three) := congrArg (Value.cell · 0 0) same
  norm_num [three] at fst

end ShaderAlgebra
