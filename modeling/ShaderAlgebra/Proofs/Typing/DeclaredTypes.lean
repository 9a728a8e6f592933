import ShaderAlgebra.Proofs.Typing.Bodies

/-!
# Declared types

The types that a shader declares its globals, parameters, results and local variables with. A check
resolves each of them once, against the structs that the shader starts with, and changes nothing
else about them (`Stmt.Passes.localTypes`).

Resolving once need not be enough: what is put in for a reference by name may hold references of its
own. A table that leaves nothing to resolve in its structs does it in one step
(`SymbolTable.IsResolved.resolve_resolve`).
-/

namespace ShaderAlgebra

open SymbolTable List

/-! ## References by name -/

namespace Ty

mutual

/-- The structs that a type refers to by name, also in array elements and members. -/
def references : Ty → List String
  | .struct name members => if members.isEmpty then [name] else referencesOfMembers members
  | .array base _ => references base
  | .void | .scalar _ | .vector .. | .matrix .. | .function .. | .unknown => []

def referencesOfMembers : List (String × Ty) → List String
  | [] => []
  | (_, ty) :: members => references ty ++ referencesOfMembers members

end

end Ty

/-! ## Types with nothing left to resolve -/

namespace SymbolTable

/-- No type of a declared struct refers to a struct by name that the table could put in. -/
def IsResolved (table : SymbolTable) : Prop :=
  ∀ name ty, table.structType? name = some ty → table.resolve ty = ty

/-- There is nothing to resolve in the types. -/
def Fixes (table : SymbolTable) (types : List Ty) : Prop := ∀ ty ∈ types, table.resolve ty = ty

mutual

lemma resolve_congr {table oth : SymbolTable} (same : oth.structs = table.structs) :
    (ty : Ty) → oth.resolve ty = table.resolve ty
  | .struct name mems => by
    simp only [resolve, structType?, same, resolveMembers_congr same mems]
  | .array base size => by simp only [resolve, resolve_congr same base]
  | .void | .scalar _ | .vector .. | .matrix .. | .function .. | .unknown => by simp only [resolve]

lemma resolveMembers_congr {table oth : SymbolTable} (same : oth.structs = table.structs) :
    (mems : List (String × Ty)) → oth.resolveMembers mems = table.resolveMembers mems
  | [] => by simp only [resolveMembers]
  | (name, ty) :: mems => by
    simp only [resolveMembers, resolve_congr same ty, resolveMembers_congr same mems]

end

section Congr

variable {table oth : SymbolTable} (same : oth.structs = table.structs)

include same

lemma resolve_eq_of_structs : oth.resolve = table.resolve :=
  funext (resolve_congr same)

lemma overloadOf_congr (f : FunctionDef) : oth.overloadOf f = table.overloadOf f := by
  simp only [overloadOf, resolve_congr same]

lemma IsResolved.congr (res : table.IsResolved) : oth.IsResolved := by
  intro name ty found
  rw [resolve_congr same]
  exact res name ty (by rw [structType?, ← same]; exact found)

end Congr

lemma resolve_pushScope (table : SymbolTable) : table.pushScope.resolve = table.resolve :=
  resolve_eq_of_structs rfl

lemma isEmpty_resolveMembers (table : SymbolTable) (mems : List (String × Ty)) :
    (table.resolveMembers mems).isEmpty = mems.isEmpty := by
  cases mems <;> simp [resolveMembers]

/-- Resolving leaves a reference to the name as it is: no struct of that name is declared, or one
without members. -/
def Leaves (table : SymbolTable) (name : String) : Prop :=
  ∀ ty ∈ table.structType? name, ty = .struct name []

instance (table : SymbolTable) (name : String) : Decidable (table.Leaves name) :=
  inferInstanceAs (Decidable (∀ ty ∈ table.structType? name, ty = .struct name []))

section References

variable {table : SymbolTable}

lemma resolve_reference (name : String) :
    table.resolve (.struct name []) = (table.structType? name).getD (.struct name []) := by
  simp [resolve]

mutual

/-- There is nothing to resolve in a type exactly if its references are left as they are. -/
lemma resolve_eq_self_iff :
    (ty : Ty) → (table.resolve ty = ty ↔ ∀ name ∈ ty.references, table.Leaves name)
  | .struct name [] => by
    rw [resolve_reference]
    cases found : table.structType? name <;> simp [Ty.references, Leaves, found]
  | .struct name (member :: mems) => by
    have ins := resolveMembers_eq_self_iff (member :: mems)
    simpa [resolve, Ty.references] using ins
  | .array base size => by
    have ins := resolve_eq_self_iff base
    simpa [resolve, Ty.references] using ins
  | .void | .scalar _ | .vector .. | .matrix .. | .function .. | .unknown => by
    simp [resolve, Ty.references]

lemma resolveMembers_eq_self_iff : (mems : List (String × Ty)) → (table.resolveMembers mems = mems
      ↔ ∀ name ∈ Ty.referencesOfMembers mems, table.Leaves name)
  | [] => by simp [resolveMembers, Ty.referencesOfMembers]
  | (name, ty) :: mems => by
    simp only [resolveMembers, Ty.referencesOfMembers, List.cons.injEq, Prod.mk.injEq, true_and,
      forall_mem_append, resolve_eq_self_iff ty, resolveMembers_eq_self_iff mems]

end

mutual

/-- What a resolved type refers to: what the type referred to and is not declared, and what the
declared structs refer to. -/
lemma mem_references_resolve {name : String} : (ty : Ty) → name ∈ (table.resolve ty).references →
    ∃ ref ∈ ty.references, (table.structType? ref = none ∧ name = ref)
      ∨ ∃ decl ∈ table.structType? ref, name ∈ decl.references
  | .struct own [], mem => by
    rw [resolve_reference] at mem
    refine ⟨own, by simp [Ty.references], ?_⟩
    cases found : table.structType? own with
    | none => exact .inl ⟨rfl, by simpa [found, Ty.references] using mem⟩
    | some decl => exact .inr ⟨decl, rfl, by simpa [found] using mem⟩
  | .struct own (member :: mems), mem => by
    have ins : name ∈ Ty.referencesOfMembers (table.resolveMembers (member :: mems)) := by
      simpa [resolve, Ty.references, isEmpty_resolveMembers] using mem
    simpa [Ty.references] using mem_references_resolveMembers (member :: mems) ins
  | .array base size, mem => mem_references_resolve base mem
  | .void, mem | .scalar _, mem | .vector .., mem | .matrix .., mem | .function .., mem
  | .unknown, mem => by simp [resolve, Ty.references] at mem

lemma mem_references_resolveMembers {name : String} : (mems : List (String × Ty)) →
    name ∈ Ty.referencesOfMembers (table.resolveMembers mems) →
    ∃ ref ∈ Ty.referencesOfMembers mems, (table.structType? ref = none ∧ name = ref)
        ∨ ∃ decl ∈ table.structType? ref, name ∈ decl.references
  | [], mem => by simp [resolveMembers, Ty.referencesOfMembers] at mem
  | (own, ty) :: mems, mem => by
    simp only [resolveMembers, Ty.referencesOfMembers, mem_append] at mem
    rcases mem with inFirst | inRest
    · obtain ⟨ref, ins, origin⟩ := mem_references_resolve ty inFirst
      exact ⟨ref, mem_append_left _ ins, origin⟩
    · obtain ⟨ref, ins, origin⟩ := mem_references_resolveMembers mems inRest
      exact ⟨ref, mem_append_right _ ins, origin⟩

end

/-- A resolved type has nothing left to resolve. -/
lemma IsResolved.resolve_resolve (res : table.IsResolved) (ty : Ty) :
    table.resolve (table.resolve ty) = table.resolve ty := by
  refine (resolve_eq_self_iff _).mpr fun name mem => ?_
  obtain ⟨ref, -, ⟨undeclared, rfl⟩ | ⟨decl, found, ins⟩⟩ := mem_references_resolve ty mem
  · simp [Leaves, undeclared]
  · exact (resolve_eq_self_iff decl).mp (res ref decl found) name ins

lemma IsResolved.fixes_map (res : table.IsResolved) (types : List Ty) :
    table.Fixes (types.map table.resolve) := by
  intro ty mem
  obtain ⟨written, -, rfl⟩ := mem_map.mp mem
  exact res.resolve_resolve written

end References

namespace Fixes

variable {table oth : SymbolTable} {types more : List Ty}

lemma congr (fixed : table.Fixes types) (same : oth.structs = table.structs) : oth.Fixes types :=
  fun ty mem => (resolve_congr same ty).trans (fixed ty mem)

lemma pushScope (fixed : table.Fixes types) : table.pushScope.Fixes types := fixed.congr rfl

lemma of_append (fixed : table.Fixes (types ++ more)) : table.Fixes types ∧ table.Fixes more :=
  forall_mem_append.mp fixed

end Fixes

end SymbolTable

/-! ## The declared types of a shader -/

namespace Stmt

mutual

/-- The types of the variables that a statement declares, at any depth. -/
def localTypes : Stmt → List Ty
  | .declare _ ty _ => [ty]
  | .branch _ accept reject => localTypesOfAll accept ++ localTypesOfAll reject
  | .loop init _ _ body => localTypesOfOption init ++ localTypesOfAll body
  | .block body => localTypesOfAll body
  | .eval _ | .ret _ | .leave | .next => []

def localTypesOfOption : Option Stmt → List Ty
  | none => []
  | some s => localTypes s

def localTypesOfAll : List Stmt → List Ty
  | [] => []
  | s :: ss => localTypes s ++ localTypesOfAll ss

end

end Stmt

/-- The types that a function is called with. -/
def FunctionDef.formTypes (f : FunctionDef) : List Ty := f.parameters.map (·.ty) ++ [f.result]

/-- The types of the variables of the body. -/
def FunctionDef.localTypes (f : FunctionDef) : List Ty := Stmt.localTypesOfAll f.body

/-- The types of what an item declares. The members of a struct are types of its own
declaration. -/
def Item.declaredTypes : Item → List Ty
  | .struct _ => []
  | .global g => [g.ty]
  | .function f => f.formTypes ++ f.localTypes

/-- The types of the globals, parameters, results and local variables of a shader. -/
def Shader.declaredTypes (shader : Shader) : List Ty := shader.items.flatMap Item.declaredTypes

/-! ## A check resolves the declared types -/

namespace Stmt

variable {enc : Enclosing} {table last : SymbolTable} {ss₀ ss : List Stmt}

lemma Passes.structs (passes : Passes enc table ss₀ ss last) : last.structs = table.structs := by
  induction passes with
  | done => rfl
  | alone _ _ ih | declare _ _ _ ih => exact ih
  | block _ _ ihBody ih =>
    rw [ih, structs_popScope, ihBody]
    rfl
  | branch _ _ _ _ ihA ihR ih =>
    rw [ih, structs_popScope, ihR]
    exact (structs_popScope _).trans ihA
  | loop _ _ _ _ _ ihInit ihBody ih =>
    rw [ih, structs_popScope, structs_popScope, ihBody]
    exact ihInit

lemma localTypesOfAll_toList (s : Option Stmt) :
    localTypesOfAll s.toList = localTypesOfOption s := by
  cases s <;> simp [localTypesOfAll, localTypesOfOption]

/-- Statements that are accepted declare their variables with the resolved types. -/
lemma Passes.localTypes (passes : Passes enc table ss₀ ss last) :
    localTypesOfAll ss = (localTypesOfAll ss₀).map table.resolve := by
  have kept {table inner : SymbolTable} {ss₀ ss : List Stmt}
      (ins : Passes enc table.pushScope ss₀ ss inner) :
      inner.popScope.resolve = table.resolve :=
    resolve_eq_of_structs ((structs_popScope _).trans ins.structs)
  induction passes with
  | done => rfl
  | alone given _ ih => cases given <;> exact ih
  | @declare table _ name ty _ _ _ _ _ _ _ ih =>
    have same : (table.declare name (table.resolve ty)).2.resolve = table.resolve :=
      resolve_eq_of_structs rfl
    simp [localTypesOfAll, Stmt.localTypes, ih, same]
  | block body _ ihBody ih =>
    simp [localTypesOfAll, Stmt.localTypes, ihBody, ih, kept body, resolve_pushScope]
  | branch _ acc rej _ ihA ihR ih =>
    simp [localTypesOfAll, Stmt.localTypes, ihA, ihR, ih, kept acc, kept rej, resolve_pushScope]
  | @loop table header inner _ init init' _ _ _ _ _ _ _ _ isInit _ _ body _ ihInit ihBody ih =>
    have opn : header.resolve = table.resolve := resolve_eq_of_structs isInit.structs
    have closed : inner.popScope.popScope.resolve = header.resolve :=
      (resolve_eq_of_structs (structs_popScope _)).trans (kept body)
    rw [localTypesOfAll_toList, localTypesOfAll_toList] at ihInit
    simp [localTypesOfAll, Stmt.localTypes, ihInit, ihBody, ih, closed, opn, resolve_pushScope]

end Stmt

end ShaderAlgebra
