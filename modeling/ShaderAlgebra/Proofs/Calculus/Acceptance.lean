import ShaderAlgebra.Proofs.Calculus.Inline
import ShaderAlgebra.Proofs.Calculus.Slope
import ShaderAlgebra.Proofs.Calculus.Stable
import ShaderAlgebra.Proofs.Calculus.Typed

/-!
# Derived shaders are accepted

A derived shader that keeps its functions is accepted as it is (`Shader.infer_differentiate`): every
node of its derivatives carries the type that inference gives it, and every derivative returns what
it says. Inference checks the functions as it did before, since it knows more now, and each
derivative where its function was checked.

That is so for regular shaders only (`Shader.IsRegular`). The derivative of `float(v)` is written
down as that of the vector `v`, which is no `float` (`Shader.infer_differentiate_scalarOfVector`).
-/

namespace ShaderAlgebra

open List SymbolTable Variation FunctionDef

variable {h f : FunctionDef} {table : SymbolTable} {name : String} {tys : List Ty}
  {decls : List (String × Ty)} {ty : Ty}

/-! ## The items of a derived shader -/

namespace InputHandling

variable {input : InputHandling} {derivatives : FunctionDef → List FunctionDef} {items : List Item}

lemma arrange_embedded :
    InputHandling.embedded.arrange derivatives items = items.flatMap (Item.followedBy derivatives) := by
  have nothing : (Shader.mk items).functions.flatMap (InputHandling.embedded.postpone derivatives)
      = [] := flatMap_eq_nil_iff.mpr fun _ _ => rfl
  rw [arrange, nothing, append_nil]
  refine flatMap_congr fun item _ => ?_
  cases item <;> rfl

lemma flatMap_followedBy_nothing : items.flatMap (Item.followedBy fun _ => []) = items := by
  rw [flatMap_congr (g := fun item => [item]) fun item _ => by cases item <;> rfl]
  exact flatMap_singleton' items

lemma arrange_prepended : InputHandling.prepended.arrange derivatives items
      = items ++ ((Shader.mk items).functions.flatMap derivatives).map Item.function := by
  have same : items.flatMap (InputHandling.prepended.keep derivatives) = items := by
    rw [flatMap_congr (g := Item.followedBy fun _ => []) fun item _ => by cases item <;> rfl]
    exact flatMap_followedBy_nothing
  rw [arrange, same, map_flatMap]
  rfl

/-- The functions are those that were there and their derivatives. -/
lemma mem_functions_arrange (stay : input ≠ .omitted) :
    h ∈ (Shader.mk (input.arrange derivatives items)).functions ↔
      h ∈ (Shader.mk items).functions ∨ ∃ f ∈ (Shader.mk items).functions, h ∈ derivatives f := by
  have all : input.kept (Shader.mk items).functions = (Shader.mk items).functions := by
    cases input with
    | omitted => exact (stay rfl).elim
    | _ => rfl
  rw [functions_arrange, (input.functions_perm derivatives _).mem_iff, mem_append, mem_flatMap, all]

/-- The functions of a name that no derivative has are those that were there. -/
lemma filter_functions_arrange (kept : input ≠ .omitted)
    (others : ∀ f ∈ (Shader.mk items).functions, ∀ h ∈ derivatives f, h.name ≠ name) :
    (Shader.mk (input.arrange derivatives items)).functions.filter (·.name = name)
      = (Shader.mk items).functions.filter (·.name = name) := by
  have none : ∀ f ∈ (Shader.mk items).functions, (derivatives f).filter (·.name = name) = [] :=
    fun f mem => filter_eq_nil_iff.mpr fun h own => by simpa using others f mem h own
  rw [functions_arrange]
  cases input with
  | omitted => exact (kept rfl).elim
  | embedded =>
    clear others
    generalize (Shader.mk items).functions = fs at none ⊢
    rw [functions]
    induction fs with
    | nil => rfl
    | cons f fs ih =>
      have fst := none f mem_cons_self
      rw [flatMap_cons, filter_append, ih fun g mem => none g (mem_cons_of_mem _ mem),
        filter_cons, filter_cons, fst]
      split <;> rfl
  | prepended =>
    rw [functions, filter_append, filter_flatMap, flatMap_eq_nil_iff.mpr none, append_nil]

lemma structs_arrange :
    (Shader.mk (input.arrange derivatives items)).structs = (Shader.mk items).structs := by
  rw [← Shader.structs_filter_isDeclaration, declarations_arrange,
    Shader.structs_filter_isDeclaration]

end InputHandling

/-! ## Functions of one form -/

lemma Overload.takes_of_takesExactly {form : Overload} (exactly : form.takesExactly tys) :
    form.takes tys := by
  obtain rfl : form.parameters.map (·.ty) = tys := by simpa [takesExactly] using exactly
  simp only [takes, length_map, beq_self_eq_true, Bool.true_and, all_eq_true,
    ← map_prod_left_eq_zip]
  intro pair mem
  obtain ⟨p, -, rfl⟩ := mem_map.mp mem
  exact Ty.convertsTo_self p.ty

lemma Overload.takes_floats {form : Overload} (floats : ∀ p ∈ form.parameters, p.ty = .float) :
    form.takes tys ↔ form.parameters.length = tys.length ∧ ∀ ty ∈ tys, ty.convertsTo .float := by
  simp only [takes, Bool.and_eq_true, beq_iff_eq, all_eq_true]
  refine and_congr_right fun cnt => ⟨fun all ty mem => ?_, fun all pair mem => ?_⟩
  · rw [← map_snd_zip (Nat.le_of_eq cnt.symm)] at mem
    obtain ⟨⟨p, _⟩, ins, rfl⟩ := mem_map.mp mem
    have conv := all _ ins
    rwa [floats p (of_mem_zip ins).1] at conv
  · obtain ⟨p, ty⟩ := pair
    obtain ⟨memP, memType⟩ := of_mem_zip mem
    rw [floats p memP]
    exact all ty memType

namespace Site

variable {site : Site} {fn : String} {args : List Expr} {ty : Ty} {form : Overload}

lemma overloadFor_only (only : site.symbols.overloads fn = [form]) {found : Overload} :
    site.overloadFor fn tys = .ok found ↔ form.takes tys ∧ found = form := by
  have chosen : ([form].find? (·.takesExactly tys)).or ([form].find? (·.takes tys))
      = if form.takes tys then some form else none := by
    by_cases taken : form.takes tys
    · by_cases exactly : form.takesExactly tys <;> simp [taken, exactly]
    · have notExactly : ¬form.takesExactly tys :=
        fun exactly => taken (Overload.takes_of_takesExactly exactly)
      simp [taken, notExactly]
  rw [overloadFor, only, chosen]
  by_cases taken : form.takes tys
  · simp [taken, eq_comm]
  · rw [if_neg (by simp), if_neg taken]
    dsimp only
    split <;> simp [taken]

/-- A call of a function that has one form. -/
lemma fits_only_form (notTy : Ty.ofName? fn = none) (notStruct : site.symbols.structType? fn = none)
    (notBi : Builtin.ofName? fn = none) (only : site.symbols.overloads fn = [form])
    (read : ∀ p ∈ form.parameters, p.passing = .input) :
    site.Fits (.call fn args ty) ↔ form.takes (args.map Expr.ty) ∧ form.result = ty := by
  simp only [Fits, callType_eq_ok, notTy, notStruct, notBi, overloadFor_only only]
  constructor
  · rintro ⟨_, ⟨taken, rfl⟩, -, res⟩
    exact ⟨taken, res⟩
  · rintro ⟨taken, res⟩
    exact ⟨form, ⟨taken, rfl⟩, unassignable?_of_input _ read, res⟩

end Site

namespace SymbolTable

/-- Functions of one name that all have the same form have one form. -/
lemma overloads_of_same {shader : Shader} (mem : f ∈ shader.functions)
    (same : ∀ g ∈ shader.functions, g.name = f.name →
      (ofShader shader).overloadOf g = (ofShader shader).overloadOf f) :
    (ofShader shader).overloads f.name = [(ofShader shader).overloadOf f] := by
  rw [overloads_ofShader]
  refine Overload.distinct_eq_singleton (mem_map.mpr ⟨f, by simpa using mem, rfl⟩) ?_
  intro oth ins
  obtain ⟨g, found, rfl⟩ := mem_map.mp ins
  obtain ⟨memG, named⟩ := mem_filter.mp found
  exact same g memG (by simpa using named)

/-- A name that is not declared means what it meant before. -/
lemma lookup_declareAll_of_notMem (wf : table.WellFormed) (absent : name ∉ decls.map (·.1)) :
    (table.declareAll decls).lookup name = table.lookup name := by
  induction decls generalizing table with
  | nil => rfl
  | cons decl rest ih =>
    obtain ⟨oth, absent⟩ := not_or.mp (mt mem_cons.mpr absent)
    refine (ih (wellFormed_declare wf decl.1 decl.2) absent).trans ?_
    rw [lookup_declare wf, if_neg oth]

/-- If all declarations of a name give it one type, that is what it means. -/
lemma lookup_declareAll_of_mem (wf : table.WellFormed)
    (same : ∀ oth, (name, oth) ∈ decls → oth = ty) (mem : name ∈ decls.map (·.1)) :
    (table.declareAll decls).lookup name = some ty := by
  induction decls generalizing table with
  | nil => cases mem
  | cons decl rest ih =>
    have wf' := wellFormed_declare wf decl.1 decl.2
    by_cases again : name ∈ rest.map (·.1)
    · exact ih wf' (fun oth inRest => same oth (mem_cons_of_mem _ inRest)) again
    · refine (lookup_declareAll_of_notMem wf' again).trans ?_
      obtain rfl := (mem_cons.mp mem).resolve_right again
      rw [lookup_declare wf, if_pos rfl, same decl.2 mem_cons_self]

end SymbolTable

/-! ## Derivative functions -/

/-- A value that converts to a type has a derivative of the same type. -/
lemma Ty.derivative?_of_convertsTo {x x' y t : Ty} (conv : x.convertsTo x')
    (typed : x'.derivative? y = some t) : x.derivative? y = some t := by
  simp only [convertsTo, Bool.or_eq_true, decide_eq_true_eq] at conv
  rcases conv with rfl | conv
  · exact typed
  · split at conv
    · exact typed
    · obtain rfl := of_decide_eq_true conv
      exact typed
    · cases conv

lemma Ty.resolve_derivative? (table : SymbolTable) {x y t : Ty}
    (typed : x.derivative? y = some t) : table.resolve t = t := by
  obtain ⟨a, rfl⟩ := exists_plain_of_derivative? typed
  rcases cases_of_derivative? typed with ⟨size, _, rfl, -, rfl⟩ | ⟨_, _, rfl, -, rfl⟩
  · cases size.or a <;> simp only [plain, SymbolTable.resolve]
  · simp only [SymbolTable.resolve]

namespace FunctionDef

lemma isChainable_iff : f.isChainable ↔ f.result = .float ∧ f.parameters ≠ []
      ∧ ∀ p ∈ f.parameters, p.ty = .float ∧ p.passing = .input := by
  simp [isChainable, and_assoc]

/-- The parameters of a name say what it means, if all have one type. -/
lemma lookup_parameter (f : FunctionDef) (wf : table.WellFormed) {p : Parameter}
    (mem : p ∈ f.parameters) (named : p.name = name)
    (same : ∀ q ∈ f.parameters, q.name = name → q.ty = p.ty) :
    (table.declareAll (f.parameters.map fun p => (p.name, p.ty))).lookup name = some p.ty := by
  refine lookup_declareAll_of_mem wf (fun oth ins => ?_) ?_
  · obtain ⟨q, memQ, pair⟩ := mem_map.mp ins
    obtain ⟨rfl, rfl⟩ := Prod.mk.inj pair
    exact same q memQ rfl
  · exact mem_map.mpr ⟨_, mem_map.mpr ⟨p, mem, rfl⟩, named⟩

/-- A derivative that has the right type is not spread. -/
lemma spread_of_ty {deriv : Expr} {tgt : Ty} (typed : deriv.ty = tgt) :
    spread deriv tgt = deriv := by
  rw [spread, if_neg]
  rw [typed]
  cases tgt <;> simp [Ty.isScalar, Ty.isVector]

/-- A call of a function that the chain rule applies to, if that is its only form. -/
lemma takes_of_fits (chain : f.isChainable) {site : Site} {args : List Expr}
    (notTy : Ty.ofName? f.name = none) (notStruct : site.symbols.structType? f.name = none)
    (notBi : Builtin.ofName? f.name = none) (only : site.symbols.overloads f.name = [f.form])
    (fits : site.Fits (.call f.name args ty)) :
    ty = .float ∧ (∀ x ∈ args, x.ty.convertsTo .float) ∧ f.form.takes (args.map Expr.ty) := by
  obtain ⟨res, -, inputs⟩ := isChainable_iff.mp chain
  obtain ⟨taken, isF⟩ := (Site.fits_only_form notTy notStruct notBi only
    fun p ins => (inputs p ins).2).mp fits
  refine ⟨isF.symm.trans res, ?_, taken⟩
  simpa using ((Overload.takes_floats fun p ins => (inputs p ins).1).mp taken).2

end FunctionDef

namespace Shader

/-- The shader with the derivatives that exist for a catalogue. -/
def withDerivatives (shader : Shader) (input : InputHandling) (final : Catalogue) : Shader :=
  ⟨input.arrange final.derivativesOf shader.items⟩

/-- What an accepted shader keeps to if its derivatives are to be accepted beside it. -/
structure IsRegular (shader : Shader) : Prop where
  /-- Structs are declared before other structs use them. -/
  resolved : (SymbolTable.ofShader shader).IsResolved
  /-- No struct has the name of a built-in function or of a derivative. -/
  notBuiltin : ∀ builtin : Builtin, (SymbolTable.ofShader shader).structType? builtin.name = none
  notStruct : ∀ v ∈ Variation.all shader.functions,
    (SymbolTable.ofShader shader).structType? v.name = none
  /-- The parameters of a function have different names. -/
  parameters : ∀ f ∈ shader.functions, (f.parameters.map (·.name)).Nodup
  /-- No derivative has the name of a function. -/
  fresh : ∀ v ∈ Variation.all shader.functions, ∀ f ∈ shader.functions, v.name ≠ f.name
  /-- A function that the chain rule applies to is the only one of its name, and so are its
  derivatives. -/
  single : ∀ f ∈ shader.functions, f.isChainable = true →
    ∀ g ∈ shader.functions, g.name = f.name → g = f
  alone : ∀ v ∈ Variation.all shader.functions, v.function.isChainable = true →
    ∀ w ∈ Variation.all shader.functions, w.name = v.name → w = v
  /-- Assignments are whole statements, and calls do not write to their arguments. -/
  plain : ∀ f ∈ shader.functions, Stmt.AllPlain ⟨.ofShader shader, none⟩ f.body
  /-- Calls that mention a parameter are regular. -/
  calls : ∀ v ∈ Variation.all shader.functions, ∀ e,
    v.function.expression.outcome = .ok e → e.IsRegular v.parameter.name

section Derived

variable {shader annotated : Shader} {input : InputHandling} {final : Catalogue}

lemma structs_withDerivatives :
    (annotated.withDerivatives input final).structs = annotated.structs :=
  InputHandling.structs_arrange

variable (kept : input ≠ .omitted)
include kept

lemma mem_functions_withDerivatives : h ∈ (annotated.withDerivatives input final).functions ↔
      h ∈ annotated.functions ∨ ∃ v ∈ Variation.all annotated.functions, v.outcome final = .ok h := by
  refine (InputHandling.mem_functions_arrange kept).trans (or_congr_right ?_)
  simp only [Catalogue.mem_derivativesOf]
  constructor
  · rintro ⟨f, memFn, p, memP, der⟩
    exact ⟨⟨f, p⟩, mem_all.mpr ⟨memFn, memP⟩, der⟩
  · rintro ⟨v, mem, der⟩
    obtain ⟨memFn, memP⟩ := mem_all.mp mem
    exact ⟨v.function, memFn, v.parameter, memP, der⟩

variable (inferred : shader.infer.outcome = .ok annotated) (regular : annotated.IsRegular)
include inferred regular

/-- Every function is written with the form that it has. -/
lemma overloadOf_withDerivatives (mem : h ∈ (annotated.withDerivatives input final).functions) :
    (SymbolTable.ofShader (annotated.withDerivatives input final)).overloadOf h = h.form := by
  rw [overloadOf_congr (structs_ofShader_congr structs_withDerivatives)]
  have own {f : FunctionDef} (mem : f ∈ annotated.functions) :=
    overloadOf_of_infer inferred regular.resolved mem
  rcases (mem_functions_withDerivatives kept).mp mem with ins | ⟨v, ins, der⟩
  · exact own ins
  · obtain ⟨_, tgt, _, _, -, -, typed, -, -, rfl⟩ :=
      derivativeFunction_eq_ok.mp der
    have ps := congrArg Overload.parameters (own (mem_all.mp ins).1)
    exact congrArg₂ Overload.mk ps (Ty.resolve_derivative? _ typed)

lemma covers_withDerivatives :
    (SymbolTable.ofShader (annotated.withDerivatives input final)).Covers (.ofShader shader) := by
  refine covers_of_infer inferred structs_withDerivatives
    (fun h => overloadOf_withDerivatives kept inferred regular) fun f mem => ?_
  refine InputHandling.filter_functions_arrange kept fun g memG h deriv => ?_
  obtain ⟨p, memP, der⟩ := Catalogue.mem_derivativesOf.mp deriv
  have named : h.name = (Variation.mk g p).name := name_of_outcome der
  rw [named]
  exact regular.fresh ⟨g, p⟩ (mem_all.mpr ⟨memG, memP⟩) f mem

/-- A function that the chain rule applies to has one form. -/
lemma overloads_of_chainable {g : FunctionDef} (mem : g ∈ annotated.functions)
    (chain : g.isChainable) :
    (SymbolTable.ofShader (annotated.withDerivatives input final)).overloads g.name = [g.form] := by
  have memAfter : g ∈ (annotated.withDerivatives input final).functions :=
    (mem_functions_withDerivatives kept).mpr (.inl mem)
  rw [overloads_of_same memAfter, overloadOf_withDerivatives kept inferred regular memAfter]
  intro h memH named
  rcases (mem_functions_withDerivatives kept).mp memH with ins | ⟨v, ins, der⟩
  · rw [regular.single g mem chain h ins named]
  · have oth := regular.fresh v ins g mem
    rw [name_of_outcome der] at named
    exact (oth named).elim

/-- So does its derivative. -/
lemma overloads_of_derivative {v : Variation} (mem : v ∈ Variation.all annotated.functions)
    (chain : v.function.isChainable) (der : v.outcome final = .ok h) :
    (SymbolTable.ofShader (annotated.withDerivatives input final)).overloads v.name = [h.form] := by
  have memAfter := (mem_functions_withDerivatives kept).mpr (.inr ⟨v, mem, der⟩)
  rw [← name_of_outcome der, overloads_of_same memAfter,
    overloadOf_withDerivatives kept inferred regular memAfter]
  intro g memG named
  rw [name_of_outcome der] at named
  rcases (mem_functions_withDerivatives kept).mp memG with ins | ⟨w, ins, derivedG⟩
  · exact (regular.fresh v mem g ins named.symm).elim
  · obtain rfl : w = v := by
      rw [name_of_outcome derivedG] at named
      exact regular.alone v mem chain w ins named
    obtain rfl := Except.ok.inj (derivedG.symm.trans der)
    rfl

variable (settles : Catalogue.Settles annotated.functions (.ofShader annotated) final)
include settles

/-- Calls that fit where a derivative is checked are regular there. -/
lemma regularCall {site : Site} {d : Derivation} {a : Option Dim}
    (cat : d.catalogue = final) (overloads : site.symbols.overloads
      = (SymbolTable.ofShader (annotated.withDerivatives input final)).overloads)
    (stTy : site.symbols.structType? = (SymbolTable.ofShader annotated).structType?)
    (byF : d.ty = .plain a .float) {fn : String} {args : List Expr}
    (fits : site.Fits (.call fn args ty)) (admits : d.Admits ty)
    (call : (Expr.call fn args ty).isRegularCall) :
    d.RegularCall (some site) fn args ty := by
  subst cat
  simp only [Expr.isRegularCall, Bool.and_eq_true, Bool.or_eq_true, all_eq_true, bne_iff_ne,
    ne_eq] at call
  have float : Ty.float.derivative? d.ty = some (.plain a .float) :=
    byF ▸ Ty.derivative?_scalar.mpr rfl
  have chain {g : FunctionDef} (mem : g ∈ annotated.functions) (chainable : g.isChainable)
      (named : g.name = fn) (notTy : Ty.ofName? fn = none)
      (notBi : Builtin.ofName? fn = none) :
      ty = .float ∧ (∀ x ∈ args, x.ty.convertsTo .float) ∧ g.form.takes (args.map Expr.ty) := by
    subst named
    exact takes_of_fits chainable notTy (admits.notStruct notTy fits) notBi
      (overloads ▸ overloads_of_chainable kept inferred regular mem chainable) fits
  refine ⟨?_, fun bi named _ => ?_, ?_⟩
  · rintro (type | ⟨notTy, notBi, known⟩) x ins -
    · have scal := call.1.resolve_left (fun oth => oth type) x ins
      simp only [Site.Fits, Site.callType_eq_ok, type] at fits
      obtain ⟨-, rfl⟩ := fits
      refine ⟨_, ?_, float⟩
      rw [byF]
      generalize x.ty = value at scal
      cases value with
      | scalar => exact Ty.derivative?_scalar.mpr rfl
      | _ => cases scal
    · obtain ⟨ps, known⟩ := Option.ne_none_iff_exists'.mp known
      rw [Catalogue.parameters?, settles.functions_eq] at known
      obtain ⟨g, mem, chainable, named, -⟩ := Catalogue.parameters?_ofShader known
      obtain ⟨rfl, conv, -⟩ := chain mem chainable named notTy notBi
      exact ⟨_, Ty.derivative?_of_convertsTo (conv x ins) float, float⟩
  · simpa [named] using call.2
  · intro ps notTy notBi known name memName exists_ _ here
    obtain rfl := Option.mem_some_iff.mp here
    rw [Catalogue.parameters?, settles.functions_eq] at known
    obtain ⟨g, mem, chainable, rfl, rfl⟩ := Catalogue.parameters?_ofShader known
    obtain ⟨-, -, taken⟩ := chain mem chainable rfl notTy notBi
    obtain ⟨res, -, inputs⟩ := isChainable_iff.mp chainable
    obtain ⟨p, memP, rfl⟩ := mem_map.mp memName
    have memV : Variation.mk g p ∈ Variation.all annotated.functions := mem_all.mpr ⟨mem, memP⟩
    have clb : (Variation.mk g p).name ∉ d.catalogue.missing := by
      simpa [Catalogue.hasDerivative, Variation.name] using exists_
    obtain ⟨h, der⟩ := derives_iff.mp (settles.isStable _ memV clb)
    have form : h.form = ⟨g.parameters, .float⟩ := by
      obtain ⟨q, tgt, _, _, found, -, typed, -, -, rfl⟩ := derivativeFunction_eq_ok.mp der
      have isF := (inputs q (mem_of_find?_eq_some found)).1
      rw [show (Variation.mk g p).function.result = .float from res, isF] at typed
      obtain rfl := Option.some.inj typed
      rfl
    have onlyDerivative := overloads_of_derivative kept inferred regular memV chainable der
    rw [form, ← overloads] at onlyDerivative
    have free := stTy ▸ regular.notStruct _ memV
    exact (Site.fits_only_form (ofName?_derivativeName _ _) free
      (builtin_ofName?_derivativeName _ _) onlyDerivative fun p ins => (inputs p ins).2).mpr
        ⟨taken, rfl⟩

/-- A derivative is accepted as it is wherever what its function needs is known. -/
lemma check_derivative {v : Variation} (mem : v ∈ Variation.all annotated.functions)
    {f₀ : FunctionDef} (der : v.outcome final = .ok h) {larger after : SymbolTable}
    (gives : f₀.check.Gives table v.function after)
    (before : (SymbolTable.ofShader shader).Extends table) (covers : larger.Covers table)
    (ext : (SymbolTable.ofShader (annotated.withDerivatives input final)).Extends larger) :
    ∃ after', h.check.Gives larger h after' := by
  have memH := (mem_functions_withDerivatives kept).mpr (.inr ⟨v, mem, der⟩)
  have form : larger.overloadOf h = ⟨h.parameters, h.result⟩ := by
    rw [overloadOf_congr ext.structs]
    exact overloadOf_withDerivatives kept inferred regular memH
  obtain ⟨param, tgt, e, raw, found, -, typed, reduced, onBody, rfl⟩ :=
    derivativeFunction_eq_ok.mp der
  obtain ⟨memFn, -⟩ := mem_all.mp mem
  obtain ⟨a, byF⟩ := Ty.exists_plain_of_derivative? typed
  let site : Site := FunctionDef.entry ⟨derivativeName v.parameter.name v.function.name,
    v.function.parameters, tgt, []⟩ larger
  -- The returned expression is a tree of the place where the function starts, and there is nothing
  -- that is known there and not where the derivative starts.
  obtain ⟨isAnn, conv⟩ : e.IsAnnotated (v.function.entry table)
      ∧ e.ty.convertsTo v.function.result := by
    refine expression_isAnnotated (check_checked covers.wellFormed gives).2 reduced ?_
    have opn := extends_declareAll (wellFormed_pushScope covers.wellFormed)
      (v.function.parameters.map fun p => (p.name, p.ty))
    refine Stmt.AllPlain.congr ⟨?_, ?_⟩ _ (regular.plain v.function memFn)
    · rw [overloads_congr (functions_of_infer inferred regular.resolved)]
      exact opn.overloads.trans before.overloads
    · rw [structs_of_infer inferred]
      exact opn.structs.trans before.structs
  have here : e.IsAnnotated site := isAnn.covers (covers.pushScope.declareAll _)
  have opn := extends_declareAll (wellFormed_pushScope covers.largerWellFormed)
    (v.function.parameters.map fun p => (p.name, p.ty))
  have bound : site.symbols.lookup v.parameter.name = some param.ty := by
    have named : param.name = v.parameter.name := by simpa using find?_some found
    have memP := mem_of_find?_eq_some found
    refine v.function.lookup_parameter (wellFormed_pushScope covers.largerWellFormed)
      memP named fun q ins oth => ?_
    rw [inj_on_of_nodup_map (regular.parameters v.function memFn) ins memP (oth.trans named.symm)]
  have sts : site.symbols.structs = (SymbolTable.ofShader annotated).structs :=
    (opn.structs.trans ext.structs).trans (structs_ofShader_congr structs_withDerivatives)
  have stTy : site.symbols.structType? = (SymbolTable.ofShader annotated).structType? :=
    funext fun name => congrArg (·.get? name) sts
  have chg : (Derivation.mk v.parameter.name param.ty final).Typed (some site) e.ty raw := by
    refine @Derivation.typed_derive site _ _ _ _
      ⟨⟨a, byF⟩, bound, fun bi oth mem => ?_⟩ ⟨fun s ins _ => here s ins, ?_, ?_⟩
      (Derivation.admits_of_derivative? (Ty.derivative?_of_convertsTo conv typed)) onBody
    · obtain rfl := Option.mem_some_iff.mp mem
      exact stTy ▸ regular.notBuiltin bi
    · rintro _ ⟨⟩
      exact here
    · intro fn args ty ins moves admits
      exact regularCall kept inferred regular settles rfl (opn.overloads.trans ext.overloads)
        stTy byF (here _ ins) admits (regular.calls v mem e reduced _ ins moves)
  obtain ⟨simplified, sameTy, -⟩ :=
    Rules.simplify_keepsTyping Rule.all site raw (chg.annotated site rfl)
  have isTarget : (Rules.simplify Rule.all raw).result.ty = tgt := by
    rw [sameTy]
    exact Option.some.inj (chg.type.symm.trans (Ty.derivative?_of_convertsTo conv typed))
  rw [spread_of_ty isTarget] at form ⊢
  refine gives_check_return form rfl simplified ?_
  rw [isTarget]
  exact Ty.convertsTo_self tgt

end Derived

variable {shader annotated : Shader} {options : DerivativeOptions} {r : DerivedShader}

lemma exists_variation {final : Catalogue} (ins : .function f ∈ annotated.items)
    (deriv : h ∈ final.derivativesOf f) :
    ∃ v ∈ Variation.all annotated.functions, v.function = f ∧ v.outcome final = .ok h := by
  obtain ⟨p, memP, der⟩ := Catalogue.mem_derivativesOf.mp deriv
  exact ⟨⟨f, p⟩, mem_all.mpr ⟨mem_functions.mpr ins, memP⟩, rfl, der⟩

/-- A derived shader that keeps its functions is accepted as it is, if the shader is regular: every
node of every derivative carries the type that inference gives it, and every derivative returns a
value of its result type. A derivative at the end of the shader sees the globals that its function
saw if no global is declared twice. -/
theorem infer_differentiate (derived : (shader.differentiate options).outcome = .ok r)
    (kept : options.input ≠ .omitted) (inferred : shader.infer.outcome = .ok annotated)
    (regular : annotated.IsRegular)
    (globals : options.input = .prepended → (annotated.globals.map (·.name)).Nodup) :
    r.shader.infer.outcome = .ok r.shader := by
  obtain ⟨_, final, inferred', settles, items, -⟩ := differentiate_eq_ok derived
  obtain rfl := Except.ok.inj (inferred.symm.trans inferred')
  obtain ⟨last, checks⟩ := infer_eq_ok.mp inferred
  have isDerived : r.shader = annotated.withDerivatives options.input final := congrArg mk items
  have resolved : (SymbolTable.ofShader shader).IsResolved :=
    regular.resolved.congr (SymbolTable.structs_of_infer inferred).symm
  have covers : (SymbolTable.ofShader (annotated.withDerivatives options.input final)).Covers _ :=
    covers_withDerivatives kept inferred regular
  have fixed := checks.fixes covers.wellFormed resolved
  rw [isDerived, infer_eq_ok]
  cases input : options.input with
  | omitted => exact (kept input).elim
  | embedded =>
    obtain ⟨last', again, -⟩ := checks.again fixed covers
      fun inside before after covers gives h derivative => by
        obtain ⟨v, mem, rfl, derived⟩ := exists_variation inside derivative
        exact check_derivative kept inferred regular settles mem derived gives before covers after
    rw [← InputHandling.arrange_embedded, input] at again
    exact ⟨last', again⟩
  | prepended =>
    have fresh : Item.Checks.Fresh (.ofShader shader) annotated.items :=
      ⟨fun g _ => SymbolTable.lookup_ofShader g.name, globals input⟩
    obtain ⟨last', again, extended, coversLast⟩ := checks.again fixed covers
      fun _ _ _ _ _ h (absent : h ∈ []) => by cases absent
    obtain ⟨end_, derivatives, -⟩ := Item.Checks.functions coversLast.largerWellFormed
      (annotated.functions.flatMap final.derivativesOf) fun h mem later keeps => by
        obtain ⟨f, memF, derivative⟩ := List.mem_flatMap.mp mem
        have inside : .function f ∈ annotated.items := mem_functions.mp memF
        obtain ⟨v, mem, rfl, derived⟩ := exists_variation inside derivative
        obtain ⟨_, table, _, before, gives, known⟩ :=
          checks.gives_of_mem (SymbolTable.wellFormed_ofShader shader) inside
        exact check_derivative kept inferred regular settles mem derived gives before
          ((keeps.covers coversLast.largerWellFormed).trans (coversLast.trans (known fresh)))
          (extended.trans keeps.extends_)
    have arranged : (annotated.withDerivatives .prepended final).items = annotated.items
        ++ (annotated.functions.flatMap final.derivativesOf).map Item.function :=
      InputHandling.arrange_prepended
    rw [InputHandling.flatMap_followedBy_nothing, input] at again
    rw [arranged]
    exact ⟨end_, again.append derivatives⟩

lemma isRegular_jumping : jumping.IsRegular where
  resolved := by
    intro name ty found
    cases found
  notBuiltin _ := rfl
  notStruct _ _ := rfl
  parameters := by decide
  fresh := by decide
  single _ mem _ _ memOther named :=
    inj_on_of_nodup_map (by decide : (jumping.functions.map (·.name)).Nodup) memOther mem named
  alone _ mem _ _ memOther named :=
    inj_on_of_nodup_map (by decide : ((Variation.all jumping.functions).map (·.name)).Nodup)
      memOther mem named
  plain := by
    have pureX : (Expr.ident "x" .float).IsPure ⟨.ofShader jumping, none⟩ :=
      Expr.within_leaf rfl trivial
    have compared : (Expr.binary .less (.ident "x" .float) (.ident "x" .float)
        (.scalar .bool)).IsPure ⟨.ofShader jumping, none⟩ :=
      Expr.within_pair rfl trivial pureX pureX
    intro f mem
    change f ∈ [_, _, _, _] at mem
    simp only [mem_cons, not_mem_nil, or_false] at mem
    rcases mem with rfl | rfl | rfl | rfl <;> refine ⟨?_, trivial⟩ <;> rintro _ ⟨⟩
    · exact Expr.forall_within_iff.mpr ⟨trivial, by simpa [Expr.children] using ⟨compared, pureX⟩⟩
    all_goals
      refine Expr.within_single rfl ?_ pureX
      rintro _ ⟨⟩
      try decide
  calls := by
    have regularX : (Expr.ident "x" .float).IsRegular "x" := Expr.within_leaf rfl fun _ => rfl
    have compared : (Expr.binary .less (.ident "x" .float) (.ident "x" .float)
        (.scalar .bool)).IsRegular "x" :=
      Expr.within_pair rfl (fun _ => rfl) regularX regularX
    intro v mem e reduced
    change v ∈ [_, _, _, _] at mem
    simp only [mem_cons, not_mem_nil, or_false] at mem
    rcases mem with rfl | rfl | rfl | rfl <;> cases reduced <;>
      refine Expr.isRegular_iff.mpr ⟨fun _ => by decide, ?_⟩
    · simpa [Expr.children] using ⟨compared, regularX⟩
    all_goals simpa [Expr.children] using regularX

/-- The derivative of `ripple` calls that of `wave`, and stands at the end of the shader. -/
theorem infer_differentiate_jumping :
    ∃ r, (jumping.differentiate ⟨.prepended, true⟩).outcome = .ok r
      ∧ r.shader.functions.map (·.name)
        = ["jump", "follow", "wave", "ripple", "ddx_wave", "ddx_ripple"]
      ∧ r.shader.infer.outcome = .ok r.shader := by
  have evaluated : (jumping.differentiate ⟨.prepended, true⟩).outcome.toOption.map
      (fun r => r.shader.functions.map (·.name))
        = some ["jump", "follow", "wave", "ripple", "ddx_wave", "ddx_ripple"] := by
    decide +kernel
  obtain ⟨r, derived, names⟩ := exists_ok_of_map evaluated
  have inferred : jumping.infer.outcome = .ok jumping := rfl
  exact ⟨r, derived, names,
    infer_differentiate derived (by decide) inferred isRegular_jumping fun _ => by decide⟩

/-- `float spread(float x) { return float(vec3(x, x, x)); }` -/
def scalarOfVector : Shader :=
  let x : Expr := .ident "x" .float
  ⟨[ofBody "spread" (.call "float" [.call "vec3" [x, x, x] (.vector .three .float)] .float)]⟩

/-- The derivative of `spread` is `float` and returns a vector. -/
theorem infer_differentiate_scalarOfVector :
    ∃ r, (scalarOfVector.differentiate ⟨.embedded, false⟩).outcome = .ok r
      ∧ r.shader.infer.outcome ≠ .ok r.shader := by
  have evaluated : (scalarOfVector.differentiate ⟨.embedded, false⟩).outcome.toOption.map
      (fun r => r.shader.infer.outcome.isOk) = some false := by
    decide +kernel
  obtain ⟨r, derived, rejected⟩ := exists_ok_of_map evaluated
  refine ⟨r, derived, fun accepted => ?_⟩
  rw [accepted] at rejected
  cases rejected

end Shader

end ShaderAlgebra
