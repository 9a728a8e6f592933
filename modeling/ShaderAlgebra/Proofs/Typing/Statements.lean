import ShaderAlgebra.Proofs.Typing.Meaning

/-!
# Statements inside of statements

The statements inside of a body, at any depth, and the expressions that a statement has itself. What
a statement passes on to its parts holds of all inside of it (`Stmt.forall_mem_nested`). So in an
accepted shader all expressions are annotated, and a property that all declared types have is one of
every name that an expression stands under (`Shader.exists_isAnnotatedUnder`).
-/

namespace ShaderAlgebra

open List

variable {e : Expr} {s : Stmt}

/-! ## Statements and their expressions -/

namespace Stmt

mutual

/-- The statements inside of a statement, itself first. -/
def nested : Stmt → List Stmt
  | .branch condition accept reject =>
    .branch condition accept reject :: (nestedInAll accept ++ nestedInAll reject)
  | .loop init condition step body =>
    .loop init condition step body :: (nestedInOption init ++ nestedInAll body)
  | .block body => .block body :: nestedInAll body
  | s => [s]

def nestedInOption : Option Stmt → List Stmt
  | none => []
  | some s => nested s

def nestedInAll : List Stmt → List Stmt
  | [] => []
  | s :: ss => nested s ++ nestedInAll ss

end

/-- The statements directly inside of a statement. -/
def parts : Stmt → List Stmt
  | .branch _ accept reject => accept ++ reject
  | .loop init _ _ body => init.toList ++ body
  | .block body => body
  | _ => []

lemma nestedInAll_eq (ss : List Stmt) : nestedInAll ss = ss.flatMap nested :=
  Expr.walk_eq_flatMap _ rfl (fun _ _ => rfl) ss

/-- What is nested in a statement: itself, and what is nested in its parts. -/
lemma nested_eq (s : Stmt) : nested s = s :: s.parts.flatMap nested := by
  cases s with
  | loop init cond step body =>
    cases init <;> simp [nested, nestedInOption, parts, nestedInAll_eq]
  | _ => simp [nested, parts, nestedInAll_eq]

lemma sizeOf_lt_of_mem_parts {part : Stmt} (mem : part ∈ s.parts) : sizeOf part < sizeOf s := by
  cases s with
  | branch cond accept rej =>
    rcases mem_append.mp mem with mem | mem
    all_goals
      have smaller := sizeOf_lt_of_mem mem
      simp
      omega
  | loop init cond step body =>
    rcases mem_append.mp mem with isInit | inBody
    · obtain rfl := Option.mem_toList.mp isInit
      simp
      omega
    · have smaller := sizeOf_lt_of_mem inBody
      simp
      omega
  | block body =>
    have smaller : sizeOf part < sizeOf body := sizeOf_lt_of_mem mem
    simp
    omega
  | _ => cases mem

/-- What a statement passes on to those directly inside of it, it passes on to all inside. -/
lemma forall_mem_nested {Q : Stmt → Prop} (pass : ∀ s, Q s → ∀ part ∈ s.parts, Q part)
    (s : Stmt) (holds : Q s) : ∀ s' ∈ nested s, Q s' := by
  intro s' mem
  rw [nested_eq, mem_cons, mem_flatMap] at mem
  rcases mem with rfl | ⟨part, isPart, ins⟩
  · exact holds
  · exact forall_mem_nested pass part (pass s holds part isPart) s' ins
termination_by sizeOf s
decreasing_by exact sizeOf_lt_of_mem_parts isPart

lemma forall_mem_nestedInAll {Q : Stmt → Prop} (pass : ∀ s, Q s → ∀ part ∈ s.parts, Q part)
    {ss : List Stmt} (holds : ∀ s ∈ ss, Q s) : ∀ s' ∈ nestedInAll ss, Q s' := by
  rw [nestedInAll_eq]
  intro s' mem
  obtain ⟨s, isOuter, ins⟩ := mem_flatMap.mp mem
  exact forall_mem_nested pass s (holds s isOuter) s' ins

/-- The expressions whose values a statement keeps: a first value, and a returned one. -/
def keptExprs : Stmt → List Expr
  | .declare _ _ init => init.toList
  | .ret value => value.toList
  | _ => []

/-- The expressions that a statement decides by. -/
def conditions : Stmt → List Expr
  | .branch condition _ _ => [condition]
  | .loop _ condition _ _ => condition.toList
  | _ => []

/-- The expressions that a statement evaluates for their effect. -/
def effects : Stmt → List Expr
  | .eval expr => [expr]
  | .loop _ _ step _ => step.toList
  | _ => []

/-- The expressions that a statement has itself. -/
def exprs (s : Stmt) : List Expr := s.keptExprs ++ s.conditions ++ s.effects

end Stmt

/-- The statements of the body, at any depth. -/
def FunctionDef.statements (f : FunctionDef) : List Stmt := Stmt.nestedInAll f.body

/-- The expressions of an item: the initializer of a global, and all those of a function. -/
def Item.exprs : Item → List Expr
  | .struct _ => []
  | .global g => g.init.toList
  | .function f => f.statements.flatMap Stmt.exprs

def Shader.exprs (shader : Shader) : List Expr := shader.items.flatMap Item.exprs

/-! ## Names with a property -/

namespace Names

variable {P : Ty → Prop} {names : Names}

/-- The types of all known names have the property. -/
def All (P : Ty → Prop) (names : Names) : Prop := ∀ name ty, names name = some ty → P ty

lemma All.declare (all : names.All P) {name : String} {ty : Ty} (own : P ty) :
    (names.declare name ty).All P := by
  intro oth found known
  rw [Names.declare] at known
  split at known
  · exact Option.some.inj known ▸ own
  · exact all oth found known

lemma All.declareAll (all : names.All P) {syms : List Symbol}
    (own : ∀ s ∈ syms, ∀ ty ∈ s.ty, P ty) : (names.declareAll syms).All P := by
  intro name ty known
  have isVar : (⟨name, some ty⟩ : Symbol).ty = some ty := rfl
  rcases declareAll_eq_some isVar known with ⟨i, found, -⟩ | ⟨-, found⟩
  · exact own _ (mem_of_getElem? found) ty rfl
  · exact all name ty found

end Names

/-! ## Annotated expressions of a shader -/

namespace Stmt

section Annotated

variable {site : Site} {result : Ty} {P : Ty → Prop}

lemma all_declares {names : Names} (all : names.All P) (s : Stmt)
    (own : ∀ ty ∈ s.localTypes, P ty) : (s.declares names).All P := by
  cases s with
  | declare name ty init => exact all.declare (own ty mem_cons_self)
  | _ => exact all

/-- The statement is annotated under names with the property, and declares variables with it. -/
def StandsUnder (site : Site) (result : Ty) (P : Ty → Prop) (s : Stmt) : Prop :=
  ∃ names : Names, names.All P ∧ (∀ ty ∈ s.localTypes, P ty) ∧ s.IsAnnotated site result names

lemma standsUnder_of_mem {ss : List Stmt} {names : Names} (all : names.All P)
    (tys : ∀ ty ∈ localTypesOfAll ss, P ty) (ann : AllAnnotated site result names ss) :
    ∀ s ∈ ss, s.StandsUnder site result P := by
  induction ss generalizing names with
  | nil => simp
  | cons s ss ih =>
    obtain ⟨firstTypes, restTypes⟩ := forall_mem_append.mp tys
    exact forall_mem_cons.mpr ⟨⟨names, all, firstTypes, ann.1⟩,
      ih (all_declares all s firstTypes) restTypes ann.2⟩

lemma StandsUnder.part (s : Stmt) (stands : s.StandsUnder site result P) :
    ∀ part ∈ s.parts, part.StandsUnder site result P := by
  obtain ⟨names, all, tys, ann⟩ := stands
  cases s with
  | branch cond accept rej =>
    obtain ⟨-, accAnn, rejAnn⟩ := ann
    obtain ⟨acceptTypes, rejectTypes⟩ := forall_mem_append.mp tys
    exact forall_mem_append.mpr ⟨standsUnder_of_mem all acceptTypes accAnn,
      standsUnder_of_mem all rejectTypes rejAnn⟩
  | loop init cond step body =>
    obtain ⟨initAnn, -, -, bodyAnn⟩ := ann
    obtain ⟨initTypes, bodyTypes⟩ := forall_mem_append.mp tys
    cases init with
    | none => exact standsUnder_of_mem all bodyTypes bodyAnn
    | some s =>
      exact forall_mem_cons.mpr ⟨⟨names, all, initTypes, initAnn⟩,
        standsUnder_of_mem (all_declares all s initTypes) bodyTypes bodyAnn⟩
  | block body => exact standsUnder_of_mem all tys ann
  | _ => simp [parts]

/-- The expressions of a statement are annotated under names with the property. -/
lemma StandsUnder.exists_isAnnotatedUnder (stands : s.StandsUnder site result P) (own : e ∈ s.exprs)
    : ∃ names : Names, names.All P ∧ e.IsAnnotatedUnder site names := by
  obtain ⟨names, all, tys, ann⟩ := stands
  cases s with
  | declare name ty init =>
    have isInit : e ∈ init := by simpa [exprs, keptExprs, conditions, effects] using own
    exact ⟨names, all, (ann.2 e isInit).1⟩
  | eval expr =>
    obtain rfl : e = expr := by simpa [exprs, keptExprs, conditions, effects] using own
    exact ⟨names, all, ann⟩
  | ret val =>
    obtain rfl : val = some e := by simpa [exprs, keptExprs, conditions, effects] using own
    exact ⟨names, all, ann.1⟩
  | branch cond accept rej =>
    obtain rfl : e = cond := by simpa [exprs, keptExprs, conditions, effects] using own
    exact ⟨names, all, ann.1.1⟩
  | loop init cond step body =>
    obtain ⟨-, condAnn, stepAnn, -⟩ := ann
    obtain ⟨initTypes, -⟩ := forall_mem_append.mp tys
    have ins : (init.elim names fun s => s.declares names).All P := by
      cases init with
      | none => exact all
      | some s => exact all_declares all s initTypes
    simp only [exprs, keptExprs, conditions, effects, nil_append, mem_append,
      Option.mem_toList] at own
    rcases own with isCond | isStep
    · exact ⟨_, ins, (condAnn e isCond).1⟩
    · exact ⟨_, ins, stepAnn e isStep⟩
  | block | leave | next => simp [exprs, keptExprs, conditions, effects] at own

end Annotated

end Stmt

/-- The types of the variables that an item declares for the shader are declared types of it. -/
lemma Item.mem_declaredTypes_of_symbols {item : Item} {s : Symbol} (decl : s ∈ item.symbols)
    {ty : Ty} (isVar : ty ∈ s.ty) : ty ∈ item.declaredTypes := by
  cases item with
  | struct _ => cases decl
  | global g =>
    obtain rfl := mem_singleton.mp decl
    cases isVar
    exact mem_singleton_self _
  | function f =>
    obtain rfl := mem_singleton.mp decl
    cases isVar

namespace Shader

variable {shader ann : Shader} {P : Ty → Prop}

section

variable (acc : shader.infer.outcome = .ok ann)

include acc

/-- Every expression of an accepted shader is annotated under names that have a property of all the
declared types. -/
lemma exists_isAnnotatedUnder (tys : ∀ ty ∈ ann.declaredTypes, P ty) (own : e ∈ ann.exprs) :
    ∃ (site : Site) (names : Names), site.symbols.structs = (SymbolTable.ofShader shader).structs
        ∧ site.symbols.functions = (SymbolTable.ofShader shader).functions
        ∧ names.All P ∧ e.IsAnnotatedUnder site names := by
  obtain ⟨item, mem, inItem⟩ := mem_flatMap.mp own
  obtain ⟨before, after, split⟩ := append_of_mem mem
  obtain ⟨last, checks⟩ := infer_eq_ok.mp acc
  obtain ⟨site, sts, fns, isAnn⟩ :=
    checks.isAnnotated (SymbolTable.wellFormed_ofShader shader) split
  have typesOf (item' : Item) (mem : item' ∈ ann.items) : ∀ ty ∈ item'.declaredTypes, P ty :=
    fun ty inItem => tys ty (mem_flatMap.mpr ⟨item', mem, inItem⟩)
  have start : Names.All P (SymbolTable.ofShader shader).lookup := by
    intro name ty found
    rw [SymbolTable.lookup_ofShader] at found
    cases found
  have ofSymbols : ∀ s ∈ before.flatMap Item.symbols, ∀ ty ∈ s.ty, P ty := by
    intro s decl ty isTy
    obtain ⟨earlier, inBefore, decl⟩ := mem_flatMap.mp decl
    refine typesOf earlier ?_ ty (Item.mem_declaredTypes_of_symbols decl isTy)
    rw [split]
    exact mem_append_left _ inBefore
  have known := start.declareAll ofSymbols
  cases item with
  | struct _ => cases inItem
  | global g =>
    exact ⟨site, _, sts, fns, known, isAnn e (Option.mem_toList.mp inItem)⟩
  | function f =>
    obtain ⟨s, ins, inStmt⟩ := mem_flatMap.mp inItem
    obtain ⟨formTypes, localTypes⟩ := forall_mem_append.mp (typesOf _ mem)
    have ofParameters : ∀ s ∈ f.parameterSymbols, ∀ ty ∈ s.ty, P ty := by
      intro s decl ty isTy
      obtain ⟨p, isParam, rfl⟩ := mem_map.mp decl
      cases isTy
      exact formTypes p.ty (mem_append_left _ (mem_map_of_mem isParam))
    have stands := Stmt.forall_mem_nestedInAll Stmt.StandsUnder.part
      (Stmt.standsUnder_of_mem (known.declareAll ofParameters) localTypes isAnn)
    obtain ⟨names, all, annExpr⟩ := (stands s ins).exists_isAnnotatedUnder inStmt
    exact ⟨site, names, sts, fns, all, annExpr⟩

lemma exists_isAnnotatedUnder_of_item {item : Item} (mem : item ∈ ann.items)
    (own : e ∈ item.exprs) : ∃ site names, e.IsAnnotatedUnder site names := by
  have inShader : e ∈ ann.exprs := mem_flatMap.mpr ⟨item, mem, own⟩
  obtain ⟨site, names, -, -, -, isAnn⟩ :=
    exists_isAnnotatedUnder (P := fun _ => True) acc (fun _ _ => trivial) inShader
  exact ⟨site, names, isAnn⟩

/-- The expressions of accepted functions are annotated. -/
lemma exists_isAnnotatedUnder_of_function {f : FunctionDef} (mem : f ∈ ann.functions)
    (ins : s ∈ f.statements) (own : e ∈ s.exprs) : ∃ site names, e.IsAnnotatedUnder site names :=
  exists_isAnnotatedUnder_of_item acc (mem_functions.mp mem) (mem_flatMap.mpr ⟨s, ins, own⟩)

/-- The initializer of an accepted global is annotated. -/
lemma exists_isAnnotatedUnder_of_global {g : GlobalVar} (mem : g ∈ ann.globals) (own : e ∈ g.init) :
    ∃ site names, e.IsAnnotatedUnder site names :=
  exists_isAnnotatedUnder_of_item acc (mem_globals.mp mem) (Option.mem_toList.mpr own)

end

end Shader

end ShaderAlgebra
