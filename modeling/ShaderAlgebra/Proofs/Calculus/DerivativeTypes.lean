import ShaderAlgebra.Proofs.Calculus.Acceptance

/-!
# The type of a derivative

The derivative of what a function returns has the type that the derivative of its result should have
(`Shader.ty_differentiate`), also where the nodes inside it carry types that inference would not give
them: the logarithm of an `int` is taken for an `int`, but a product with a derivative is a float.

Three calls lead to other types (`Shader.KeepsTypes`). The derivative of `float(v)` is that of `v`,
that of a cross product has the type of the first factor (`Shader.ty_differentiate_twist`), and the
chain rule takes the form of a name that is all of floats for every form of it.
-/

namespace ShaderAlgebra

namespace Shader

/-- Whether functions of more than one form have the name, and the chain rule applies to one of
them. -/
def IsOverloaded (shader : Shader) (name : String) : Prop :=
  ∃ f ∈ shader.functions, ∃ g ∈ shader.functions,
    f.name = name ∧ f.isChainable = true ∧ g.name = name ∧ g.form ≠ f.form

/-- What the calls in an expression keep to if its derivative by a parameter is to have the type that
it should have. -/
structure KeepsTypes (shader : Shader) (p : Parameter) (e : Expr) : Prop where
  /-- Arguments of `float` and of overloaded functions have derivatives of the type of that of the
  call. -/
  shares : ∀ {function : String} {arguments : List Expr} {ty : Ty},
    Expr.Within (.call function arguments ty) e →
    Ty.ofName? function = some .float ∨ shader.IsOverloaded function →
    ∀ x ∈ arguments, x.mentions p.name = true → Ty.Shares p.ty x.ty ty
  /-- The first factor of a cross product has floats. -/
  cross : ∀ {arguments : List Expr} {ty : Ty},
    Expr.Within (.call Builtin.cross.name arguments ty) e →
    (Expr.call Builtin.cross.name arguments ty).mentions p.name = true →
    (arguments.map Expr.ty).head?.any Ty.isGenericFloat = true

variable {shader annotated : Shader}

/-- A name that is not overloaded has one form where a function is checked, if the chain rule knows
it. -/
lemma overloads_of_notOverloaded (inf : shader.infer.outcome = .ok annotated)
    {g : FunctionDef} (mem : g ∈ annotated.functions) (chain : g.isChainable)
    (single : ¬annotated.IsOverloaded g.name) :
    (SymbolTable.ofShader shader).overloads g.name = [g.form] := by
  rw [SymbolTable.overloads_of_infer inf]
  refine Overload.distinct_eq_singleton (List.mem_map.mpr ⟨g, by simpa using mem, rfl⟩) ?_
  intro oth ins
  obtain ⟨h, found, rfl⟩ := List.mem_map.mp ins
  obtain ⟨memH, named⟩ := List.mem_filter.mp found
  by_contra differ
  exact single ⟨g, mem, h, memH, rfl, chain, by simpa using named, differ⟩

lemma regularCall_of_keepsTypes (inf : shader.infer.outcome = .ok annotated) {site : Site}
    (overloads : site.symbols.overloads = (SymbolTable.ofShader shader).overloads) {d : Derivation}
    {a : Option Dim} (byF : d.ty = .plain a .float)
    (known : d.catalogue.parameters? = (Catalogue.ofShader annotated).parameters?) {p : Parameter}
    (named : p.name = d.name) (typed : p.ty = d.ty) {e : Expr} (wellTyped : e.IsWellTyped site)
    (keeps : annotated.KeepsTypes p e) {fn : String} {args : List Expr} {ty : Ty}
    (ins : Expr.Within (.call fn args ty) e) (moves : d.depends (.call fn args ty))
    (admits : d.Admits ty) : d.RegularCall none fn args ty := by
  refine ⟨fun cases x mem depends => ?_, fun bi isBi cross => ?_, fun _ _ _ _ _ _ _ => nofun⟩
  · rcases cases with type | ⟨notTy, notBi, regd⟩
    · exact typed ▸ keeps.shares ins (.inl type) x mem (named ▸ depends)
    obtain ⟨ps, regd⟩ := Option.ne_none_iff_exists'.mp regd
    rw [known] at regd
    obtain ⟨g, memG, chain, rfl, -⟩ := Catalogue.parameters?_ofShader regd
    by_cases overloaded : annotated.IsOverloaded g.name
    · exact typed ▸ keeps.shares ins (.inr overloaded) x mem (named ▸ depends)
    have only : site.symbols.overloads g.name = [g.form] :=
      overloads ▸ overloads_of_notOverloaded inf memG chain overloaded
    obtain ⟨-, -, inputs⟩ := FunctionDef.isChainable_iff.mp chain
    have writesNothing : site.WritesNothing (.call g.name args ty) := by
      intro form found
      unfold Site.declaredForm? at found
      split at found
      · obtain ⟨-, rfl⟩ := (Site.overloadFor_only only).mp (toOption_eq_some.mp found)
        exact fun q inForm => (inputs q inForm).2
      · cases found
    have fits := wellTyped _ ins writesNothing
    obtain ⟨rfl, conv, -⟩ := FunctionDef.takes_of_fits chain notTy
      (admits.notStruct notTy fits) notBi only fits
    have float : Ty.float.derivative? d.ty = some (.plain a .float) :=
      byF ▸ Ty.derivative?_scalar.mpr rfl
    exact ⟨_, Ty.derivative?_of_convertsTo (conv x mem) float, float⟩
  · obtain rfl := cross.resolve_left (by simp)
    obtain rfl : Builtin.cross.name = fn := by simpa using List.find?_some isBi
    exact keeps.cross ins (named ▸ moves)

/-- The derivative of a function of an accepted shader by a parameter has the type that the derivative
of its result by that parameter should have, whatever derivatives are missing. -/
theorem ty_differentiate (inferred : shader.infer.outcome = .ok annotated) {f : FunctionDef}
    (mem : f ∈ annotated.functions) {p : Parameter} (memParameter : p ∈ f.parameters)
    (same : ∀ q ∈ f.parameters, q.name = p.name → q.ty = p.ty)
    (keeps : ∀ e, f.expression.outcome = .ok e → annotated.KeepsTypes p e) {missing : List String}
    {r : Expr}
    (derived : (f.differentiate p.name
      { Catalogue.ofShader annotated with missing := missing }).outcome = .ok r) :
    f.result.derivative? p.ty = some r.ty := by
  obtain ⟨_, emitted⟩ : ∃ result, (f.derivativeFunction p.name
      { Catalogue.ofShader annotated with missing := missing }).outcome
      = .ok ⟨derivativeName p.name f.name, f.parameters, result, [.ret (some r)]⟩ := by
    rw [FunctionDef.derivativeFunction, Logged.outcome_bind, derived]
    exact ⟨_, rfl⟩
  obtain ⟨q, target, e, raw, found, -, typed, reduced, onBody, equal⟩ :=
    FunctionDef.derivativeFunction_eq_ok.mp emitted
  obtain rfl : r = FunctionDef.spread (Rules.simplify Rule.all raw).result target := by
    simpa using congrArg FunctionDef.body equal
  have named : q.name = p.name := by simpa using List.find?_some found
  have tyQ := same q (List.mem_of_find?_eq_some found) named
  rw [tyQ] at typed onBody
  obtain ⟨last, checks⟩ := infer_eq_ok.mp inferred
  obtain ⟨f₀, table, after, before, gives, -⟩ :=
    checks.gives_of_mem (SymbolTable.wellFormed_ofShader shader) (mem_functions.mp mem)
  obtain ⟨wellTyped, converts⟩ := FunctionDef.expression_isWellTyped
    (FunctionDef.check_checked before.wellFormed gives).2 reduced
  have wf := SymbolTable.wellFormed_pushScope before.wellFormed
  have opened := SymbolTable.extends_declareAll wf (f.parameters.map fun p => (p.name, p.ty))
  obtain ⟨a, byFloat⟩ := Ty.exists_plain_of_derivative? typed
  have typedE := Ty.derivative?_of_convertsTo converts typed
  have change : (Derivation.mk p.name p.ty { Catalogue.ofShader annotated with missing := missing }).Typed
      none e.ty raw := by
    refine @Derivation.typed_derive (f.entry table) none _ _ _
      ⟨⟨a, byFloat⟩, f.lookup_parameter wf memParameter rfl same, by simp⟩
      ⟨wellTyped, by simp [Expr.IsAnnotatedAt], ?_⟩ (Derivation.admits_of_derivative? typedE) onBody
    exact regularCall_of_keepsTypes inferred (opened.overloads.trans before.overloads) byFloat rfl rfl
      rfl wellTyped (keeps e reduced)
  have isTarget : raw.ty = target := Option.some.inj (change.type.symm.trans typedE)
  have simplified : (Rules.simplify Rule.all raw).result.ty = target := by
    rw [Rules.ty_simplify, isTarget]
    rw [isTarget]
    rw [byFloat] at typed
    rcases Ty.cases_of_derivative? typed with ⟨size, _, -, -, rfl⟩ | ⟨_, _, -, -, rfl⟩
    · cases size.or a <;> simp [Ty.plain]
    · simp
  rw [FunctionDef.spread_of_ty simplified, simplified]
  exact typed

/-- `float grow(float x) { return pow(2, wave(x)); }`, whose derivative has a factor `log(2)` that is
taken for an `int`. -/
def grow : FunctionDef :=
  ⟨"grow", [⟨"x", .float, .input⟩], .float,
    [.ret (some (.call "pow" [.ofInt 2, .call "wave" [.ident "x" .float] .float] .float))]⟩

/-- `grow` after `float wave(float x) { return sin(x); }`. -/
def growing : Shader := ⟨[ofBody "wave" (.call "sin" [.ident "x" .float] .float), .function grow]⟩

lemma keepsTypes_grow {e : Expr} (reduced : grow.expression.outcome = .ok e) :
    growing.KeepsTypes ⟨"x", .float, .input⟩ e := by
  cases reduced
  let allowed (name : String) : Prop := name = "pow" ∨ name = "wave"
  have wave : (Expr.call "wave" [.ident "x" .float] .float).CallsOnly allowed :=
    Expr.within_single rfl (.inr rfl) (Expr.within_leaf rfl trivial)
  have only : (Expr.call "pow" [.ofInt 2, .call "wave" [.ident "x" .float] .float] .float).CallsOnly
      allowed :=
    Expr.within_pair rfl (.inl rfl) (Expr.within_leaf rfl trivial) wave
  refine ⟨fun ins which => ?_, fun ins _ => ?_⟩
  · rcases which with type | ⟨f, memF, g, memG, rfl, -, named, differ⟩
    · rcases only _ ins with rfl | rfl <;> cases type
    · have same := List.inj_on_of_nodup_map
        (by decide : (growing.functions.map (·.name)).Nodup) memG memF named
      exact (differ (congrArg _ same)).elim
  · rcases only _ ins with oth | oth <;> exact absurd oth (by decide)

/-- The function of `growing` has a derivative, of its type. -/
theorem ty_differentiate_grow :
    growing.infer.outcome = .ok growing
      ∧ ∃ r, (grow.differentiate "x" (Catalogue.ofShader growing)).outcome = .ok r
        ∧ grow.result.derivative? .float = some r.ty := by
  have inferred : growing.infer.outcome = .ok growing := rfl
  have evaluated : (grow.differentiate "x" (Catalogue.ofShader growing)).outcome.toOption.isSome
      = true := by
    decide +kernel
  obtain ⟨r, found⟩ := Option.isSome_iff_exists.mp evaluated
  have derived := toOption_eq_some.mp found
  exact ⟨inferred, r, derived, ty_differentiate inferred (List.mem_cons_of_mem _ List.mem_cons_self)
    List.mem_cons_self (by decide) (fun _ => keepsTypes_grow) derived⟩

/-- `vec3 twist(float x) { return cross(ivec3(1, 2, 3), vec3(x, x, x)); }` -/
def twist : FunctionDef :=
  let x : Expr := .ident "x" .float
  ⟨"twist", [⟨"x", .float, .input⟩], .vec .three,
    [.ret (some (.call "cross" [.call "ivec3" [.ofInt 1, .ofInt 2, .ofInt 3] (.vector .three .int),
      .call "vec3" [x, x, x] (.vec .three)] (.vec .three)))]⟩

/-- The derivative of `twist` is taken for an integer vector. -/
theorem ty_differentiate_twist :
    (Shader.mk [.function twist]).infer.outcome = .ok ⟨[.function twist]⟩
      ∧ ∃ r, (twist.differentiate "x" (Catalogue.ofShader ⟨[.function twist]⟩)).outcome = .ok r
        ∧ r.ty = .vector .three .int ∧ twist.result.derivative? .float = some (.vec .three) := by
  have evaluated : (twist.differentiate "x"
      (Catalogue.ofShader ⟨[.function twist]⟩)).outcome.toOption.map Expr.ty
        = some (.vector .three .int) := by
    decide +kernel
  obtain ⟨r, derived, typed⟩ := exists_ok_of_map evaluated
  exact ⟨rfl, r, derived, typed, rfl⟩

end Shader

end ShaderAlgebra
