import ShaderAlgebra.Proofs.Typing.Annotated

/-!
# Types of built-in calls

What it takes for a call of a built-in function to have a type: one of its forms takes the arguments
(`resolve_eq_ok`), and what a form says of its arguments (`resolve?_eq_some`).
-/

namespace ShaderAlgebra

variable {ty snd fst : Ty} {args : List Ty} {bi : Builtin}

namespace Signature

/-- The generic type that the arguments of a form bind, if it has a generic parameter. -/
def generic? (s : Signature) (arguments : List Ty) : Option (Option Ty) :=
  match binder? (s.parameters.zip arguments) with
  | none => some none
  | some binder =>
    (bind? (s.integral && areIntegral (s.parameters.zip arguments)) binder).map some

/-- The matrix type that the arguments of a form bind. -/
def matrix? (s : Signature) (arguments : List Ty) : Option Ty :=
  ((s.parameters.zip arguments).find? fun pair =>
    pair.1 == .matrix || pair.1 == .squareMatrix).map (·.2)

/-- A form takes as many arguments as it has parameters, each of which fits, and gives its result.
-/
lemma resolve?_eq_some {s : Signature} : s.resolve? args = some ty ↔
      args.length = s.parameters.length ∧ ∃ gen, s.generic? args = some gen
        ∧ (∀ pair ∈ s.parameters.zip args, fits gen (s.matrix? args) pair.1 pair.2)
        ∧ resultType? s.result gen (s.matrix? args) = some ty := by
  unfold resolve? generic? matrix?
  by_cases count : args.length = s.parameters.length
  · simp only [count, ne_eq, not_true_eq_false, if_false, true_and]
    cases binder? (s.parameters.zip args) with
    | none => simp [List.all_eq_true]
    | some binder =>
      cases bound : bind? (s.integral && areIntegral (s.parameters.zip args)) binder <;>
        simp [List.all_eq_true, bound]
  · simp [count]

end Signature

namespace Builtin

/-- The first signature that fits decides. -/
lemma resolve_eq_ok : bi.resolve args = .ok ty ↔
      bi.signatures.findSome? (fun s => s.resolve? args) = some ty := by
  unfold resolve
  cases bi.signatures.findSome? fun s => s.resolve? args with
  | some found => simp
  | none => simp only [reduceCtorEq, iff_false]; split <;> simp

/-- A function with one form. -/
lemma resolve_eq_ok_of_form {s : Signature} (form : bi.signatures = [s]) :
    bi.resolve args = .ok ty ↔ s.resolve? args = some ty := by
  rw [resolve_eq_ok, form, List.findSome?_cons, List.findSome?_nil]
  cases s.resolve? args <;> rfl

lemma ofName?_name (bi : Builtin) : ofName? bi.name = some bi := by
  cases bi <;> rfl

/-- No built-in function has the name of a type. -/
lemma not_type (bi : Builtin) : Ty.ofName? bi.name = none := by
  cases bi <;> rfl

end Builtin

/-- A call with the name of a built-in function is one of that function, unless a struct of that
name is declared. -/
lemma Site.Fits.resolve {site : Site} {args : List Expr} (fits : site.Fits (.call bi.name args ty))
    (notStruct : ∀ name mems, ty ≠ .struct name mems) : bi.resolve (args.map Expr.ty) = .ok ty := by
  simp only [Fits, callType_eq_ok, bi.not_type, bi.ofName?_name] at fits
  cases decl : site.symbols.structType? bi.name with
  | none => simpa only [decl] using fits
  | some named =>
    obtain ⟨acc, rfl⟩ := by simpa only [decl] using fits
    obtain ⟨name, mems, rfl, -⟩ := Ty.constructStruct_eq_ok.mp acc
    exact absurd rfl (notStruct name mems)

/-! ## Floats and float vectors -/

namespace Ty

lemma convertsTo_self (ty : Ty) : ty.convertsTo ty := by simp [convertsTo]

/-- A float or float vector converts only to itself. -/
lemma eq_of_convertsTo {src tgt : Ty} (gen : src.isGenericFloat)
    (conv : src.convertsTo tgt) : src = tgt := by
  unfold convertsTo at conv
  cases src with
  | scalar kind | vector size kind => cases kind <;> simp_all [isGenericFloat]
  | _ => cases gen

lemma bind?_of_generic (gen : ty.isGenericFloat) : Signature.bind? false ty = some ty := by
  unfold isGenericFloat at gen
  split at gen
  · rfl
  · rfl
  · cases gen

end Ty

namespace Builtin

/-- The arguments of a dot product have one type. -/
lemma resolve_dot (gen : fst.isGenericFloat) (gen' : snd.isGenericFloat)
    (res : Builtin.dot.resolve [fst, snd] = .ok ty) : snd = fst ∧ ty = Ty.float := by
  obtain ⟨-, g, bound, fits, result⟩ :=
    Signature.resolve?_eq_some.mp ((resolve_eq_ok_of_form rfl).mp res)
  obtain rfl : some fst = g := by
    simpa [Signature.generic?, Signature.binder?, Ty.bind?_of_generic gen] using bound
  have conv : snd.convertsTo fst := by
    simpa [Signature.fits] using fits (.generic, snd) (by simp)
  exact ⟨Ty.eq_of_convertsTo gen' conv, (Option.some.inj result).symm⟩

/-- A cross product takes and gives vectors of three floats. -/
lemma resolve_cross (gen : fst.isGenericFloat) (gen' : snd.isGenericFloat)
    (res : Builtin.cross.resolve [fst, snd] = .ok ty) :
    fst = Ty.vec .three ∧ snd = Ty.vec .three ∧ ty = Ty.vec .three := by
  obtain ⟨-, g, -, fits, result⟩ :=
    Signature.resolve?_eq_some.mp ((resolve_eq_ok_of_form rfl).mp res)
  exact ⟨Ty.eq_of_convertsTo gen (fits (.vec3, fst) (by simp)),
    Ty.eq_of_convertsTo gen' (fits (.vec3, snd) (by simp)), (Option.some.inj result).symm⟩

/-- A mixture has the type of its first two arguments. The weight has it too or is a scalar. -/
lemma resolve_mix {wt : Ty} (gen : fst.isGenericFloat) (gen' : snd.isGenericFloat)
    (gen'' : wt.isGenericFloat) (res : Builtin.mix.resolve [fst, snd, wt] = .ok ty) :
    fst = ty ∧ snd = ty ∧ (wt = ty ∨ wt = Ty.float) := by
  obtain ⟨-, g, bound, fits, result⟩ :=
    Signature.resolve?_eq_some.mp ((resolve_eq_ok_of_form rfl).mp res)
  obtain rfl : some fst = g := by
    simpa [Signature.generic?, Signature.binder?, Ty.bind?_of_generic gen] using bound
  obtain rfl : fst = ty := Option.some.inj result
  have conv : snd.convertsTo fst := by
    simpa [Signature.fits] using fits (.generic, snd) (by simp)
  have weighs : wt.convertsTo fst
      ∨ ∃ kind, fst.kind? = some kind ∧ wt.convertsTo (.scalar kind) := by
    simpa [Signature.fits, Option.any_eq_true] using fits (.genericOrScalar, wt) (by simp)
  refine ⟨rfl, Ty.eq_of_convertsTo gen' conv, ?_⟩
  rcases weighs with whole | ⟨kind, -, scal⟩
  · exact .inl (Ty.eq_of_convertsTo gen'' whole)
  · right
    have same := Ty.eq_of_convertsTo gen'' scal
    cases kind <;> simp_all [Ty.isGenericFloat, Ty.float]

end Builtin

end ShaderAlgebra
