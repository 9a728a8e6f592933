import ShaderAlgebra.Proofs.Typing.Recheck

/-!
# The symbols that a shader starts with

The symbols that the items of a shader are checked against depend on its structs and on the names
and forms of its functions only (`SymbolTable.functions_ofShader`), and the forms of one name on the
functions of that name (`SymbolTable.overloads_ofShader`). A check of the shader keeps both. So a
shader that holds the checked functions beside others of new names starts with symbols that cover
those of the check (`SymbolTable.covers_of_infer`).
-/

namespace ShaderAlgebra

open List

variable {f : FunctionDef}

/-! ## Forms -/

namespace Overload

/-- Adds a form, unless it is there. -/
def insert (known : List Overload) (form : Overload) : List Overload :=
  if known.contains form then known else known ++ [form]

/-- The forms without repetitions. -/
def distinct (forms : List Overload) : List Overload := forms.foldl insert []

lemma foldl_insert_self {form : Overload} {forms : List Overload}
    (same : ∀ oth ∈ forms, oth = form) : forms.foldl insert [form] = [form] := by
  induction forms with
  | nil => rfl
  | cons fst rest ih =>
    obtain rfl := same fst mem_cons_self
    rw [foldl_cons, insert, if_pos (by simp)]
    exact ih fun oth mem => same oth (mem_cons_of_mem _ mem)

/-- Forms that are all the same are one. -/
lemma distinct_eq_singleton {form : Overload} {forms : List Overload} (mem : form ∈ forms)
    (same : ∀ oth ∈ forms, oth = form) : distinct forms = [form] := by
  cases forms with
  | nil => cases mem
  | cons fst rest =>
    obtain rfl := same fst mem_cons_self
    exact foldl_insert_self fun oth inRest => same oth (mem_cons_of_mem _ inRest)

end Overload

/-- The form that the function is written with. -/
def FunctionDef.form (f : FunctionDef) : Overload := ⟨f.parameters, f.result⟩

/-! ## The symbols of a shader -/

namespace SymbolTable

/-- Declares forms of functions, each under its name. -/
def declareForms (functions : Bindings (List Overload)) (forms : List (String × Overload)) :
    Bindings (List Overload) :=
  forms.foldl (fun functions (name, form) =>
    functions.set name (Overload.insert ((functions.get? name).getD []) form)) functions

lemma getD_get?_declareForms (fns : Bindings (List Overload))
    (forms : List (String × Overload)) (name : String) :
    ((declareForms fns forms).get? name).getD []
      = ((forms.filter (·.1 = name)).map (·.2)).foldl Overload.insert
          ((fns.get? name).getD []) := by
  induction forms generalizing fns with
  | nil => rfl
  | cons decl rest ih =>
    obtain ⟨own, form⟩ := decl
    refine (ih _).trans ?_
    rw [Bindings.get?_set]
    by_cases same : own = name
    · simp [same]
    · simp [same, Ne.symm same]

/-- Declaring functions adds their forms and changes nothing else. -/
lemma foldl_declareFunction (tbl : SymbolTable) (fs : List FunctionDef) :
    fs.foldl (fun tbl f => tbl.declareFunction f.name (tbl.overloadOf f)) tbl = { tbl with
          functions := declareForms tbl.functions
            (fs.map fun f => (f.name, tbl.overloadOf f)) } := by
  induction fs generalizing tbl with
  | nil => rfl
  | cons f fs ih =>
    rw [foldl_cons, ih]
    have same : ∀ g, (tbl.declareFunction f.name (tbl.overloadOf f)).overloadOf g
        = tbl.overloadOf g := overloadOf_congr rfl
    simp only [same, map_cons]
    rfl

lemma foldl_declareStruct_variables (sts : List StructDef) (tbl : SymbolTable) :
    (sts.foldl declareStruct tbl).frames = tbl.frames
      ∧ (sts.foldl declareStruct tbl).current = tbl.current
      ∧ (sts.foldl declareStruct tbl).functions = tbl.functions := by
  induction sts generalizing tbl with
  | nil => exact ⟨rfl, rfl, rfl⟩
  | cons decl rest ih => exact ih (tbl.declareStruct decl)

section Start

variable {sh : Shader}

lemma structs_ofShader :
    (ofShader sh).structs = (sh.structs.foldl declareStruct .empty).structs := by
  rw [ofShader, foldl_declareFunction]

/-- Before any item is checked no variable is known. -/
lemma lookup_ofShader (name : String) : (ofShader sh).lookup name = none := by
  obtain ⟨frames, current, -⟩ := foldl_declareStruct_variables sh.structs .empty
  have same : (ofShader sh).lookup = SymbolTable.empty.lookup := by
    refine lookup_congr wellFormed_empty (wellFormed_ofShader sh) ?_ fun i _ => ?_
    · rw [ofShader, foldl_declareFunction]
      exact current
    · rw [ofShader, foldl_declareFunction]
      exact congrArg (·[i]?) frames
  rw [same]
  rfl

lemma functions_ofShader : (ofShader sh).functions = declareForms .empty
          (sh.functions.map fun f => (f.name, (ofShader sh).overloadOf f)) := by
  have same : ∀ f, (ofShader sh).overloadOf f
      = (sh.structs.foldl declareStruct .empty).overloadOf f :=
    overloadOf_congr structs_ofShader
  simp only [same]
  rw [ofShader, foldl_declareFunction]
  simp only [(foldl_declareStruct_variables sh.structs .empty).2.2]
  rfl

lemma overloads_ofShader (name : String) : (ofShader sh).overloads name = Overload.distinct
          ((sh.functions.filter (·.name = name)).map (ofShader sh).overloadOf) := by
  rw [overloads, functions_ofShader, getD_get?_declareForms, filter_map, map_map]
  rfl

end Start

end SymbolTable

/-! ## Symbols after a check -/

namespace Item

namespace Checks

variable {items items' : List Item} {tbl last : SymbolTable}

lemma structs_eq (checks : Checks tbl items items' last) :
    (Shader.mk items').structs = (Shader.mk items).structs := by
  induction checks with
  | nil => rfl
  | @cons tbl next last item item' items items' fst rest ih =>
    cases item with
    | struct decl =>
      cases fst
      exact congrArg (decl :: ·) ih
    | global decl =>
      obtain ⟨_, -, rfl, -⟩ := check_global_eq_ok.mp fst
      exact ih
    | function f =>
      obtain ⟨_, rfl, -⟩ := check_function_eq_ok.mp fst
      exact ih

/-- A check writes every function with the form that it has. -/
lemma forms_eq (checks : Checks tbl items items' last) (wf : tbl.WellFormed) :
    (Shader.mk items').functions.map (fun f => (f.name, f.form))
      = (Shader.mk items).functions.map fun f => (f.name, tbl.overloadOf f) := by
  induction checks with
  | nil => rfl
  | @cons tbl next last item item' items items' fst rest ih =>
    have ext := check_extends wf fst
    have others := ih ext.wellFormed
    simp only [SymbolTable.overloadOf_congr ext.structs] at others
    cases item with
    | struct decl =>
      cases fst
      exact others
    | global decl =>
      obtain ⟨_, -, rfl, -⟩ := check_global_eq_ok.mp fst
      exact others
    | function f =>
      obtain ⟨f', rfl, gives⟩ := check_function_eq_ok.mp fst
      obtain ⟨-, -, -, name, form⟩ := FunctionDef.gives_check.mp gives
      have head : (f'.name, f'.form) = (f.name, tbl.overloadOf f) := by rw [name, form]; rfl
      exact congrArg₂ List.cons head others

end Checks

end Item

namespace Shader

variable {sh ann : Shader}

lemma mem_functions : f ∈ sh.functions ↔ .function f ∈ sh.items := by
  simp only [functions, mem_filterMap]
  constructor
  · rintro ⟨item, mem, found⟩
    split at found <;> cases found
    exact mem
  · exact fun mem => ⟨_, mem, rfl⟩

lemma mem_globals {g : GlobalVar} : g ∈ sh.globals ↔ .global g ∈ sh.items := by
  simp only [globals, mem_filterMap]
  constructor
  · rintro ⟨item, mem, found⟩
    split at found <;> cases found
    exact mem
  · exact fun mem => ⟨_, mem, rfl⟩

lemma infer_eq_ok : sh.infer.outcome = .ok ann ↔
      ∃ last, Item.Checks (.ofShader sh) sh.items ann.items last := by
  simp only [infer, Logged.bind_ok, Item.checkAll_eq_ok]
  constructor
  · rintro ⟨items, checks, -, -, isShader⟩
    cases isShader
    exact checks
  · intro checks
    exact ⟨ann.items, checks, (), rfl, rfl⟩

end Shader

namespace SymbolTable

variable {sh ann oth : Shader}

lemma structs_ofShader_congr (same : oth.structs = sh.structs) :
    (ofShader oth).structs = (ofShader sh).structs := by
  rw [structs_ofShader, structs_ofShader, same]

section

variable (inf : sh.infer.outcome = .ok ann)

include inf

lemma structs_of_infer : (ofShader ann).structs = (ofShader sh).structs := by
  obtain ⟨last, checks⟩ := Shader.infer_eq_ok.mp inf
  exact structs_ofShader_congr checks.structs_eq

lemma forms_of_infer : ann.functions.map (fun f => (f.name, f.form))
      = sh.functions.map fun f => (f.name, (ofShader sh).overloadOf f) := by
  obtain ⟨last, checks⟩ := Shader.infer_eq_ok.mp inf
  exact checks.forms_eq (wellFormed_ofShader sh)

/-- The forms of one name are those of the accepted functions of that name. -/
lemma overloads_of_infer (name : String) : (ofShader sh).overloads name
      = Overload.distinct ((ann.functions.filter (·.name = name)).map FunctionDef.form) := by
  have filtered := congrArg (fun forms => (forms.filter (·.1 = name)).map (·.2))
    (forms_of_infer inf)
  simp only [filter_map, map_map] at filtered
  rw [overloads_ofShader]
  exact congrArg Overload.distinct filtered.symm

/-- A name that has forms is the name of an accepted function. -/
lemma exists_function_of_overloads {name : String} (known : (ofShader sh).overloads name ≠ []) :
    ∃ f ∈ ann.functions, f.name = name := by
  by_contra none
  refine known ?_
  rw [overloads_of_infer inf,
    filter_eq_nil_iff.mpr fun f mem same => none ⟨f, mem, by simpa using same⟩]
  rfl

/-- An accepted shader is written with the resolved types. -/
lemma declaredTypes_of_infer : ann.declaredTypes = sh.declaredTypes.map (ofShader sh).resolve := by
  obtain ⟨last, checks⟩ := Shader.infer_eq_ok.mp inf
  exact checks.declaredTypes_eq (wellFormed_ofShader sh)

end

/-- A function of a shader has the form that it is written with if there is nothing to resolve in
the shader. -/
lemma overloadOf_of_fixes {tbl : SymbolTable} (fixed : tbl.Fixes sh.declaredTypes)
    (mem : f ∈ sh.functions) : tbl.overloadOf f = f.form := by
  refine FunctionDef.overloadOf_of_fixes fun ty inForm => fixed ty ?_
  exact mem_flatMap.mpr ⟨_, Shader.mem_functions.mp mem, mem_append_left _ inForm⟩

section

variable (inf : sh.infer.outcome = .ok ann)

include inf

/-- An accepted function has the form that it is written with. -/
lemma overloadOf_of_infer (res : (ofShader ann).IsResolved) (mem : f ∈ ann.functions) :
    (ofShader ann).overloadOf f = f.form := by
  refine overloadOf_of_fixes ?_ mem
  rw [declaredTypes_of_infer inf, ← resolve_eq_of_structs (structs_of_infer inf)]
  exact res.fixes_map _

/-- An accepted shader starts with the functions that the shader before started with. -/
lemma functions_of_infer (res : (ofShader ann).IsResolved) :
    (ofShader ann).functions = (ofShader sh).functions := by
  have forms : ann.functions.map (fun f => (f.name, (ofShader ann).overloadOf f))
      = ann.functions.map fun f => (f.name, f.form) :=
    map_congr_left fun f mem => by rw [overloadOf_of_infer inf res mem]
  rw [functions_ofShader, functions_ofShader, forms, forms_of_infer inf]

/-- A shader that has the structs of an accepted one, and of every name that the accepted one has
functions of these and no others, starts with symbols that cover those of the check. -/
lemma covers_of_infer (sts : oth.structs = ann.structs)
    (forms : ∀ f ∈ oth.functions, (ofShader oth).overloadOf f = f.form)
    (kept : ∀ f ∈ ann.functions, oth.functions.filter (·.name = f.name)
      = ann.functions.filter (·.name = f.name)) :
    (ofShader oth).Covers (ofShader sh) where
  wellFormed := wellFormed_ofShader sh
  largerWellFormed := wellFormed_ofShader oth
  structs := (structs_ofShader_congr sts).trans (structs_of_infer inf)
  overloads {name} known := by
    obtain ⟨f, mem, rfl⟩ := exists_function_of_overloads inf known
    rw [overloads_of_infer inf, overloads_ofShader, ← kept f mem]
    exact congrArg Overload.distinct (map_congr_left fun h ins => forms h (mem_filter.mp ins).1)
  lookup found := by
    rw [lookup_ofShader] at found
    cases found

end

end SymbolTable

end ShaderAlgebra
