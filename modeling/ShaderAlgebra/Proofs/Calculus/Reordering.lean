import ShaderAlgebra.Proofs.Calculus.Accounting
import ShaderAlgebra.Proofs.Typing.Lexical

/-!
# Functions in another order

A shader with its structs and globals first may have its functions, if no two have one name, in any
order: the functions are annotated as before, a round over them finds the same derivatives missing,
and so the rounds end with the same derivatives (`Shader.differentiate_perm`). What a caller can use
does not depend on whether it stands before what it calls.
-/

namespace ShaderAlgebra

open List SymbolTable

/-! ## Checks in tables that one environment describes -/

lemma made_ofShader (sh : Shader) : (ofShader sh).Made := by
  have sts : (sh.structs.foldl declareStruct .empty).Made :=
    List.foldlRecOn sh.structs _ .empty fun _ made decl _ => made.declareStruct decl
  exact List.foldlRecOn sh.functions _ sts fun _ made _ _ => made.declareFunction _ _

lemma Item.Checks.split {table last : SymbolTable} {items more all : List Item}
    (checks : Checks table (items ++ more) all last) :
    ∃ items' more' next, all = items' ++ more' ∧ Checks table items items' next
      ∧ Checks next more more' last := by
  induction items generalizing table all with
  | nil => exact ⟨[], all, table, rfl, .nil, checks⟩
  | cons item items ih =>
    cases checks with
    | cons fst rest =>
      obtain ⟨items', more', next, rfl, own, others⟩ := ih rest
      exact ⟨_ :: items', more', next, rfl, .cons fst own, others⟩

namespace Environment

variable {env : Environment} {table table' : SymbolTable}

/-- The environment describes two tables. -/
structure Shared (env : Environment) (table table' : SymbolTable) : Prop where
  made : table.Made
  made' : table'.Made
  describes : env.Describes table
  describes' : env.Describes table'

/-- Structs and globals are checked with the same result in both tables. -/
lemma Shared.checks (shared : env.Shared table table') {items items' : List Item}
    {last : SymbolTable} (declarations : ∀ item ∈ items, item.isDeclaration)
    (checks : Item.Checks table items items' last) :
    ∃ (last' : SymbolTable) (env' : Environment), Item.Checks table' items items' last'
      ∧ env'.Shared last last' ∧ ∀ item ∈ items', item.isDeclaration := by
  induction checks generalizing env table' with
  | nil => exact ⟨table', env, .nil, shared, declarations⟩
  | @cons table next last item item' items items' fst _ ih =>
    have others : ∀ item ∈ items, item.isDeclaration :=
      fun oth mem => declarations oth (mem_cons_of_mem _ mem)
    cases item with
    | struct decl =>
      cases fst
      obtain ⟨last', env', rest, sharedLast, all⟩ := ih shared others
      exact ⟨last', env', .cons rfl rest, sharedLast, by simpa using ⟨rfl, all⟩⟩
    | global decl =>
      obtain ⟨init, initialized, rfl, rfl⟩ := Item.check_global_eq_ok.mp fst
      have resolve : table'.resolve = table.resolve :=
        shared.describes'.resolve.trans shared.describes.resolve.symm
      have alike : Site.Alike ⟨table, none⟩ ⟨table', none⟩ :=
        ⟨⟨shared.describes'.overloads.trans shared.describes.overloads.symm,
          shared.describes'.structs.trans shared.describes.structs.symm⟩,
          shared.describes'.lookup.trans shared.describes.lookup.symm, rfl⟩
      obtain ⟨last', env', rest, sharedLast, all⟩ := ih
        ⟨shared.made.declare _ _, shared.made'.declare _ _,
          shared.describes.declare shared.made.wellFormed _ _,
          shared.describes'.declare shared.made'.wellFormed _ _⟩ others
      refine ⟨last', env', .cons (Item.check_global_eq_ok.mpr ⟨init, ?_, ?_, ?_⟩) rest, sharedLast,
        by simpa using ⟨rfl, all⟩⟩
      · rw [alike.initializer, resolve]
        exact initialized
      · rw [resolve]
      · rw [resolve]
    | function f => cases declarations _ mem_cons_self

/-- Functions are accepted with what each of them comes to under the environment. -/
lemma Describes.checks_functions (made : table.Made) (desc : env.Describes table)
    {fs : List FunctionDef} {items : List Item} :
    (∃ last, Item.Checks table (fs.map .function) items last) ↔ ∃ fs', items = fs'.map .function
        ∧ Forall₂ (fun f f' => f.annotate env = .ok f') fs fs' := by
  induction fs generalizing table items with
  | nil =>
    constructor
    · rintro ⟨_, ⟨⟩⟩
      exact ⟨[], rfl, .nil⟩
    · rintro ⟨_, rfl, ⟨⟩⟩
      exact ⟨table, .nil⟩
  | cons f fs ih =>
    have follows := f.check_follows ⟨made, desc⟩
    constructor
    · rintro ⟨last, checks⟩
      cases checks with
      | cons fst rest =>
        obtain ⟨f', rfl, acc, rfl⟩ := Item.check_function_eq_ok.mp fst
        obtain ⟨_, given, rfl⟩ := map_eq_ok.mp (follows.outcome.symm.trans acc)
        obtain ⟨_, one, rfl⟩ := map_eq_ok.mp given
        obtain ⟨fs', rfl, all⟩ := (ih follows.made (follows.describes _ _ given)).mp ⟨_, rest⟩
        exact ⟨_ :: fs', rfl, .cons one all⟩
    · rintro ⟨_, rfl, all⟩
      cases all with
      | @cons _ f' _ fs' one all =>
        have given : (f.annotate env).map (fun f' => (f', env)) = .ok (f', env) := by rw [one]; rfl
        obtain ⟨last, rest⟩ := (ih follows.made (follows.describes _ _ given)).mpr ⟨fs', rfl, all⟩
        refine ⟨last, .cons (Item.check_function_eq_ok.mpr ⟨f', rfl, ?_, rfl⟩) rest⟩
        rw [follows.outcome, given]
        rfl

end Environment

/-! ## Shaders that differ in the order of their functions -/

/-- Of different names, the functions of one name are the same in any order. -/
lemma FunctionDef.filter_name_perm {fs gs : List FunctionDef} (perm : fs.Perm gs)
    (nodup : (fs.map (·.name)).Nodup) (name : String) :
    fs.filter (·.name = name) = gs.filter (·.name = name) := by
  have alone {l : List FunctionDef} (nodup : (l.map (·.name)).Nodup) :
      (l.filter (·.name = name)).Pairwise fun _ _ => False := by
    refine ((pairwise_map.mp nodup).filter _).imp_of_mem fun memA memB differ => differ ?_
    rw [of_decide_eq_true (mem_filter.mp memA).2, of_decide_eq_true (mem_filter.mp memB).2]
  exact (perm.filter _).eq_of_pairwise (fun _ _ _ _ never => never.elim) (alone nodup)
    (alone ((perm.map _).nodup_iff.mp nodup))

namespace Shader

/-- The declarations and then the functions. -/
def ofParts (declarations : List Item) (fs : List FunctionDef) : Shader :=
  ⟨declarations ++ fs.map .function⟩

variable {declarations : List Item} {fs gs : List FunctionDef} {annotated : Shader}
  (plain : ∀ item ∈ declarations, item.isDeclaration = true)

include plain

lemma functions_ofParts : (ofParts declarations fs).functions = fs := by
  have none : (Shader.mk declarations).functions = [] := by
    refine filterMap_eq_nil_iff.mpr fun item mem => ?_
    cases item with
    | function f => cases plain _ mem
    | _ => rfl
  rw [ofParts, functions, filterMap_append]
  exact (congrArg (· ++ _) none).trans (InputHandling.functions_map_function fs)

omit plain in
lemma structs_ofParts : (ofParts declarations fs).structs = (Shader.mk declarations).structs := by
  rw [ofParts, structs, filterMap_append, filterMap_map]
  exact (congrArg (_ ++ ·) (filterMap_none _)).trans (append_nil _)

/-- A shader is accepted in any order of its functions, which are then annotated alike. -/
lemma infer_ofParts_perm (perm : fs.Perm gs) (nodup : (fs.map (·.name)).Nodup)
    (inf : (ofParts declarations fs).infer.outcome = .ok annotated) :
    ∃ decls' fs' gs', annotated = ofParts decls' fs'
      ∧ (ofParts declarations gs).infer.outcome = .ok (ofParts decls' gs')
      ∧ fs'.Perm gs' ∧ ∀ item ∈ decls', item.isDeclaration := by
  have fns : (ofParts declarations fs).functions = fs := functions_ofParts plain
  have fns' : (ofParts declarations gs).functions = gs := functions_ofParts plain
  have sts : (SymbolTable.ofShader (ofParts declarations gs)).structs
      = (SymbolTable.ofShader (ofParts declarations fs)).structs :=
    structs_ofShader_congr (structs_ofParts.trans structs_ofParts.symm)
  -- Both checks start from what one environment describes.
  have start : (SymbolTable.ofShader (ofParts declarations fs)).environment.Shared
      (.ofShader (ofParts declarations fs)) (.ofShader (ofParts declarations gs)) := by
    have own := Environment.describes_environment (.ofShader (ofParts declarations fs))
    refine ⟨made_ofShader _, made_ofShader _, own, ?_, ?_, ?_⟩
    · rw [← own.lookup]
      exact funext fun name => by rw [lookup_ofShader, lookup_ofShader]
    · rw [← own.overloads]
      funext name
      rw [overloads_ofShader, overloads_ofShader, fns, fns',
        FunctionDef.filter_name_perm perm nodup, funext (overloadOf_congr sts)]
    · exact sts
  obtain ⟨last, checks⟩ := infer_eq_ok.mp inf
  obtain ⟨decls', items, next, same, fst, rest⟩ := checks.split
  obtain ⟨next', env, fst', shared, plain'⟩ := start.checks plain fst
  obtain ⟨fs', rfl, all⟩ := (shared.describes.checks_functions shared.made).mp ⟨_, rest⟩
  obtain ⟨gs', all', perm'⟩ := perm_comp_forall₂ perm.symm all
  obtain ⟨last', rest'⟩ := (shared.describes'.checks_functions shared.made').mpr ⟨gs', rfl, all'⟩
  refine ⟨decls', fs', gs', ?_, infer_eq_ok.mpr ⟨last', fst'.append rest'⟩, perm'.symm, plain'⟩
  cases annotated
  exact congrArg Shader.mk same

end Shader

/-! ## Rounds over functions in another order -/

lemma InputHandling.functions_congr (input : InputHandling)
    (derivs : FunctionDef → List FunctionDef) {fs gs : List FunctionDef} (perm : fs.Perm gs) :
    (input.functions derivs fs).Perm (input.functions derivs gs) := by
  have kept : (input.kept fs).Perm (input.kept gs) := by
    cases input with
    | omitted => exact .refl _
    | embedded | prepended => exact perm
  exact (input.functions_perm derivs fs).trans
    ((kept.append (perm.flatMap_right _)).trans (input.functions_perm derivs gs).symm)

namespace Catalogue

variable {fs gs : List FunctionDef} {c c' final final' : Catalogue}

/-- The catalogues know the same functions and lack the same derivatives. -/
structure Alike (c c' : Catalogue) : Prop where
  parameters : c'.parameters? = c.parameters?
  missing : ∀ name, name ∈ c'.missing ↔ name ∈ c.missing

section

variable (alike : c.Alike c')

include alike

lemma Alike.outcome (v : Variation) : v.outcome c = v.outcome c' :=
  FunctionDef.outcome_derivativeFunction_congr alike.parameters fun called _ => alike.missing called

lemma Alike.derives (v : Variation) : v.derives c = v.derives c' := by
  rw [Variation.derives, Variation.derives, alike.outcome]

lemma Alike.attemptsOf : c.attemptsOf = c'.attemptsOf :=
  funext fun f => congrArg (List.map · f.parameters)
    (funext fun p => congrArg (Attempt.mk f.name p.name) (alike.outcome ⟨f, p⟩))

lemma Alike.derivativesOf : c.derivativesOf = c'.derivativesOf := by
  funext f
  rw [← filterMap_derivative?_attemptsOf, alike.attemptsOf, filterMap_derivative?_attemptsOf]

lemma Alike.skippedOf : c.skippedOf = c'.skippedOf := by
  funext f
  rw [Catalogue.skippedOf, alike.attemptsOf, ← Catalogue.skippedOf]

end

lemma mem_all_perm (perm : fs.Perm gs) (v : Variation) :
    v ∈ Variation.all gs ↔ v ∈ Variation.all fs := by
  rw [Variation.mem_all, Variation.mem_all, perm.mem_iff]

lemma Alike.isStable_iff (alike : c.Alike c') (perm : fs.Perm gs) :
    IsStable gs c' ↔ IsStable fs c := by
  simp only [IsStable, mem_all_perm perm, alike.derives, alike.missing]

lemma Alike.round (alike : c.Alike c') (perm : fs.Perm gs) : (c.round fs).Alike (c'.round gs) := by
  refine ⟨?_, fun name => ?_⟩
  · funext function
    rw [parameters?, parameters?, round_functions, round_functions]
    exact congrFun alike.parameters function
  · simp only [mem_missing_round, mem_all_perm perm, alike.derives, alike.missing]

/-- The rounds end alike. -/
lemma Settles.alike (settles : Settles fs c final) (settles' : Settles gs c' final')
    (alike : c.Alike c') (perm : fs.Perm gs) : final.Alike final' := by
  induction settles generalizing c' with
  | stable isStable =>
    cases settles' with
    | stable => exact alike
    | round unstable => exact (unstable ((alike.isStable_iff perm).mpr isStable)).elim
  | round unstable _ ih =>
    cases settles' with
    | stable isStable => exact (unstable ((alike.isStable_iff perm).mp isStable)).elim
    | round _ rest => exact ih rest (alike.round perm)

/-- Of the functions, the catalogue knows those of a name from the functions of that name. -/
lemma parameters?_registerAll {name : String} (same : c.parameters? name = c'.parameters? name) :
    (c.registerAll fs).parameters? name
      = (c'.registerAll (fs.filter (·.name = name))).parameters? name := by
  induction fs generalizing c c' with
  | nil => exact same
  | cons f fs ih =>
    have known (c : Catalogue) : (c.register f).parameters? name
        = if f.isChainable ∧ name = f.name then some (f.parameters.map (·.name))
          else c.parameters? name := by
      unfold register
      split
      · next chain => simp [parameters?, Bindings.get?_set, chain]
      · next oth => simp [oth]
    by_cases named : f.name = name
    · rw [filter_cons_of_pos (by simpa using named)]
      exact ih (by rw [known, known, same])
    · rw [filter_cons_of_neg (by simpa using named)]
      refine ih ?_
      rw [known, if_neg fun both => named both.2.symm]
      exact same

lemma ofShader_alike {sh oth : Shader} (perm : sh.functions.Perm oth.functions)
    (nodup : (sh.functions.map (·.name)).Nodup) : (ofShader sh).Alike (ofShader oth) := by
  refine ⟨funext fun name => ?_, fun name => by rw [ofShader_missing, ofShader_missing]⟩
  have own (fns : List FunctionDef) : (empty.registerAll fns).parameters? name
      = (empty.registerAll (fns.filter (·.name = name))).parameters? name :=
    parameters?_registerAll rfl
  rw [ofShader, ofShader, own, own sh.functions, FunctionDef.filter_name_perm perm nodup]

end Catalogue

namespace Shader

/-- Functions of different names may be put in any order: with derivatives left out where they do
not exist, the same derivatives are there and the same are left out, for the same reasons. -/
theorem differentiate_perm {declarations : List Item} {fs gs : List FunctionDef}
    {input : InputHandling} {r : DerivedShader}
    (plain : ∀ item ∈ declarations, item.isDeclaration = true) (perm : fs.Perm gs)
    (distinct : (fs.map (·.name)).Nodup)
    (derived : ((ofParts declarations fs).differentiate ⟨input, true⟩).outcome = .ok r) :
    ∃ r', ((ofParts declarations gs).differentiate ⟨input, true⟩).outcome = .ok r'
      ∧ r'.shader.items.filter Item.isDeclaration = r.shader.items.filter Item.isDeclaration
      ∧ r'.shader.functions.Perm r.shader.functions ∧ r'.skipped.Perm r.skipped := by
  obtain ⟨annotated, inferred⟩ := infer_of_differentiate derived
  have names := functionNames_of_infer inferred
  obtain ⟨declarations', fs', gs', rfl, inferred', perm', plain'⟩ :=
    infer_ofParts_perm plain perm distinct inferred
  have functions : (ofParts declarations' fs').functions = fs' := functions_ofParts plain'
  have functions' : (ofParts declarations' gs').functions = gs' := functions_ofParts plain'
  have same : (ofParts declarations' fs').functions.Perm (ofParts declarations' gs').functions := by
    rwa [functions, functions']
  obtain ⟨final, settles, outcome⟩ := outcome_differentiate inferred
  obtain ⟨final', settles', outcome'⟩ := outcome_differentiate inferred'
  have alike : final.Alike final' := by
    refine settles.alike settles' (Catalogue.ofShader_alike same ?_) same
    rwa [names, functions_ofParts plain]
  have skips (skipped : List Skipped) :
      (DerivativeOptions.mk input true).leaveOut skipped = .ok () :=
    DerivativeOptions.leaveOut_of_skips rfl skipped
  rw [outcome, skips] at derived
  cases derived
  refine ⟨_, by rw [outcome', skips]; rfl, ?_, ?_, ?_⟩
  · have none (fs : List FunctionDef) : (fs.map Item.function).filter Item.isDeclaration = [] := by
      simp [Item.isDeclaration]
    simp [InputHandling.declarations_arrange, ofParts, none]
  · rw [InputHandling.functions_arrange, InputHandling.functions_arrange, ← alike.derivativesOf]
    exact input.functions_congr _ same.symm
  · rw [← alike.skippedOf]
    exact (same.flatMap_right _).symm

/-- The functions of `jumping` below a global, and with every caller before what it calls. -/
theorem differentiate_perm_jumping :
    let gain : Item := .global ⟨"gain", .float, some .uniform, none⟩
    ∃ r r', ((ofParts [gain] jumping.functions).differentiate ⟨.omitted, true⟩).outcome = .ok r
      ∧ ((ofParts [gain] jumping.functions.reverse).differentiate ⟨.omitted, true⟩).outcome = .ok r'
      ∧ r.shader.functions.map (·.name) = ["ddx_wave", "ddx_ripple"]
      ∧ r.skipped.map (·.function) = ["jump", "follow"]
      ∧ r'.shader.functions.Perm r.shader.functions ∧ r'.skipped.Perm r.skipped := by
  intro gain
  have evaluated :
      ((ofParts [gain] jumping.functions).differentiate ⟨.omitted, true⟩).outcome.toOption.map
        (fun r => (r.shader.functions.map (·.name), r.skipped.map (·.function)))
      = some (["ddx_wave", "ddx_ripple"], ["jump", "follow"]) := by
    decide +kernel
  obtain ⟨r, derived, names⟩ := exists_ok_of_map evaluated
  obtain ⟨functions, skipped⟩ := Prod.mk.inj names
  obtain ⟨r', derived', -, same, left⟩ :=
    differentiate_perm (by simp [gain, Item.isDeclaration]) (List.reverse_perm _).symm (by decide) derived
  exact ⟨r, r', derived, derived', functions, skipped, same, left⟩

end Shader

end ShaderAlgebra
