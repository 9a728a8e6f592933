import ShaderAlgebra.Proofs.Typing.Declarations

/-!
# Inferring twice

Inference is asked to give back what it gave. It reads the declared types and replaces each by what
the table of structs makes of it, so the accepted shader is given back exactly if nothing is left to
replace (`Shader.infer_twice`). Something is left where a struct has a member of a struct that is
declared later, or again, or is the struct itself: the table keeps such a member as a reference by
name, and the types that were resolved through it hold the reference (`Shader.infer_unstable`).

Structs whose members refer to earlier ones only (`Shader.RefersBack`) leave nothing. The globals
and functions may stand in any order.
-/

namespace ShaderAlgebra

open SymbolTable

/-! ## Structs that refer back -/

/-- The structs that the members refer to by name. -/
def StructDef.references (declaration : StructDef) : List String :=
  Ty.referencesOfMembers declaration.members

namespace SymbolTable

variable {table : SymbolTable} {declaration : StructDef} {later : List StructDef}

/-- The declared structs have nothing left to resolve, now and after the later declarations. A
struct without members counts as a reference to itself, so it is a case of its own. -/
def Settles (table : SymbolTable) (later : List StructDef) : Prop :=
  ∀ name, ∀ ty ∈ table.structType? name, ty = .struct name []
    ∨ ∀ referred ∈ ty.references, table.Leaves referred ∧ ∀ other ∈ later, other.name ≠ referred

lemma structType?_declareStruct (name : String) : (table.declareStruct declaration).structType? name
      = if name = declaration.name then some (table.resolve declaration.ty)
        else table.structType? name :=
  Bindings.get?_set ..

lemma Leaves.declareStruct {name : String} (left : table.Leaves name)
    (oth : declaration.name ≠ name) : (table.declareStruct declaration).Leaves name := by
  intro ty found
  rw [structType?_declareStruct, if_neg (Ne.symm oth)] at found
  exact left ty found

/-- One declaration, of a struct whose members refer back. -/
lemma Settles.declareStruct (settled : table.Settles (declaration :: later))
    (notItself : declaration.name ∉ declaration.references)
    (notLater : ∀ oth ∈ later, oth.name ∉ declaration.references) :
    (table.declareStruct declaration).Settles later := by
  -- What the table had settled before stays so, since nothing settled refers to the new struct.
  have kept (name : String) (ty : Ty) (found : ty ∈ table.structType? name) :
      ty = .struct name [] ∨ ∀ ref ∈ ty.references, (table.declareStruct declaration).Leaves ref
          ∧ ∀ oth ∈ later, oth.name ≠ ref := by
    refine (settled name ty found).imp_right fun all ref mem => ?_
    obtain ⟨left, apart⟩ := all ref mem
    exact ⟨left.declareStruct (apart declaration List.mem_cons_self),
      fun oth inLater => apart oth (List.mem_cons_of_mem _ inLater)⟩
  intro name ty found
  rw [structType?_declareStruct] at found
  split at found
  · next same =>
    subst same
    obtain rfl := Option.some.inj found
    by_cases plain : declaration.members = []
    · rw [StructDef.ty, plain, resolve_reference]
      cases earlier : table.structType? declaration.name with
      | none => exact .inl rfl
      | some ty => exact kept declaration.name ty earlier
    · refine .inr fun ref mem => ?_
      have ins : ref ∈ Ty.referencesOfMembers (table.resolveMembers declaration.members) := by
        simpa [StructDef.ty, resolve, Ty.references, isEmpty_resolveMembers, plain] using mem
      obtain ⟨own, isOwn, origin⟩ := mem_references_resolveMembers _ ins
      have otherThanOwn : declaration.name ≠ own := fun same => notItself (same ▸ isOwn)
      have otherThanLater : ∀ oth ∈ later, oth.name ≠ own :=
        fun oth inLater same => notLater oth inLater (same ▸ isOwn)
      rcases origin with ⟨undeclared, rfl⟩ | ⟨ty, decl, inType⟩
      · refine ⟨Leaves.declareStruct ?_ otherThanOwn, otherThanLater⟩
        simp [Leaves, undeclared]
      · rcases kept own ty decl with rfl | all
        · obtain rfl : ref = own := by simpa [Ty.references] using inType
          refine ⟨Leaves.declareStruct ?_ otherThanOwn, otherThanLater⟩
          intro oth found
          exact Option.some.inj (found.symm.trans decl)
        · exact all ref inType
  · exact kept name ty found

/-- The structs of a list, declared in its order. -/
lemma Settles.foldl_declareStruct {sts : List StructDef} (settled : table.Settles sts)
    (notItself : ∀ declaration ∈ sts, declaration.name ∉ declaration.references)
    (notLater : sts.Pairwise fun declaration oth => oth.name ∉ declaration.references) :
    (sts.foldl SymbolTable.declareStruct table).Settles [] := by
  induction notLater generalizing table with
  | nil => exact settled
  | cons fst _ ih =>
    obtain ⟨own, others⟩ := List.forall_mem_cons.mp notItself
    exact ih (settled.declareStruct own fst) others

lemma Settles.isResolved (settled : table.Settles later) : table.IsResolved := by
  intro name ty found
  rcases settled name ty found with rfl | all
  · rw [resolve_reference, found, Option.getD_some]
  · exact (resolve_eq_self_iff ty).mpr fun ref mem => (all ref mem).1

end SymbolTable

/-! ## Inferring an accepted shader -/

namespace Shader

variable {shader annotated : Shader}

/-- No struct has a member that refers to the struct itself or to a later one. -/
def RefersBack (shader : Shader) : Prop :=
  (∀ declaration ∈ shader.structs, declaration.name ∉ declaration.references)
    ∧ shader.structs.Pairwise fun declaration other => other.name ∉ declaration.references

lemma RefersBack.isResolved (back : shader.RefersBack) :
    (SymbolTable.ofShader shader).IsResolved := by
  have start : SymbolTable.empty.Settles shader.structs := fun _ _ found => by cases found
  exact (start.foldl_declareStruct back.1 back.2).isResolved.congr structs_ofShader

/-- An accepted shader is given back if there is nothing left to resolve in it. -/
lemma infer_of_fixes (inf : shader.infer.outcome = .ok annotated)
    (fixed : (SymbolTable.ofShader shader).Fixes annotated.declaredTypes) :
    annotated.infer.outcome = .ok annotated := by
  obtain ⟨last, checks⟩ := infer_eq_ok.mp inf
  have fixed' := fixed.congr (structs_of_infer inf)
  have covers : (SymbolTable.ofShader annotated).Covers (.ofShader shader) :=
    covers_of_infer inf rfl (fun f mem => SymbolTable.overloadOf_of_fixes fixed' mem) fun _ _ => rfl
  obtain ⟨last', again, -⟩ := checks.again fixed covers
    fun _ _ _ _ _ h (absent : h ∈ []) => by cases absent
  have alone : annotated.items.flatMap (Item.followedBy fun _ => []) = annotated.items := by
    refine (List.flatMap_congr fun item _ => ?_).trans (List.flatMap_singleton' _)
    cases item <;> rfl
  rw [alone] at again
  exact infer_eq_ok.mpr ⟨last', again⟩

lemma fixes_of_infer (inf : shader.infer.outcome = .ok annotated)
    (again : annotated.infer.outcome = .ok annotated) :
    (SymbolTable.ofShader shader).Fixes annotated.declaredTypes := by
  have same := declaredTypes_of_infer again
  rw [resolve_eq_of_structs (structs_of_infer inf)] at same
  exact List.map_inj_left.mp (same.symm.trans (List.map_id _).symm)

/-- An accepted shader is given back exactly if the resolved types refer only to names that
resolving leaves as they are. They do if the members of structs refer back, whatever the order of
the globals and functions. Whatever a second inference gives has the types resolved once more. -/
theorem infer_twice (inferred : shader.infer.outcome = .ok annotated) :
    (annotated.infer.outcome = .ok annotated ↔
      ∀ ty ∈ shader.declaredTypes, ∀ name ∈ ((SymbolTable.ofShader shader).resolve ty).references,
        (SymbolTable.ofShader shader).Leaves name)
    ∧ (shader.RefersBack → annotated.infer.outcome = .ok annotated)
    ∧ ∀ again, annotated.infer.outcome = .ok again →
      again.declaredTypes = annotated.declaredTypes.map (SymbolTable.ofShader shader).resolve := by
  have types := SymbolTable.declaredTypes_of_infer inferred
  refine ⟨⟨fun again ty mem => ?_, fun left => ?_⟩, fun back => ?_, fun again inferred' => ?_⟩
  · refine (SymbolTable.resolve_eq_self_iff _).mp (fixes_of_infer inferred again _ ?_)
    rw [types]
    exact List.mem_map_of_mem mem
  · refine infer_of_fixes inferred ?_
    rw [types]
    intro ty mem
    obtain ⟨written, isWritten, rfl⟩ := List.mem_map.mp mem
    exact (SymbolTable.resolve_eq_self_iff _).mpr (left written isWritten)
  · refine infer_of_fixes inferred ?_
    rw [types]
    exact back.isResolved.fixes_map _
  · rw [← SymbolTable.resolve_eq_of_structs (SymbolTable.structs_of_infer inferred)]
    exact SymbolTable.declaredTypes_of_infer inferred'

/-- A shader whose functions and globals stand between its structs. The structs are written as
`point` and `light`, and the nodes with a note of their types. -/
def lit (point light : Ty) (note : Ty → Ty) : Shader :=
  let points := Expr.field (.ident "l" (note light)) "points" (note (.array point 2))
  let first := Expr.index points (.literal (.int 0) (note .int)) (note point)
  ⟨[.struct ⟨"Point", [("x", .float)]⟩,
    .function
      { name := "first"
        parameters := [⟨"l", light, .input⟩]
        result := point
        body := [.ret (some first)] },
    .struct ⟨"Light", [("points", .array (.struct "Point" []) 2), ("power", .float)]⟩,
    .global ⟨"lamp", light, some .uniform, none⟩,
    .function
      { name := "f"
        parameters := []
        result := .float
        body :=
          [.declare "p" point (some (.call "first" [.ident "lamp" (note light)] (note point))),
            .ret (some (.field (.ident "p" (note point)) "x" (note .float)))] }]⟩

/-- The shader as it is written: structs by name, and no types at its nodes. -/
def litWritten : Shader := lit (.struct "Point" []) (.struct "Light" []) fun _ => .unknown

def litAnnotated : Shader :=
  let point := Ty.struct "Point" [("x", .float)]
  lit point (.struct "Light" [("points", .array point 2), ("power", .float)]) id

/-- What `litWritten` refers to is resolved in the first run. -/
theorem infer_twice_lit :
    litWritten.infer.outcome = .ok litAnnotated ∧ litWritten.RefersBack
      ∧ litWritten.declaredTypes ≠ litAnnotated.declaredTypes
      ∧ litAnnotated.infer.outcome = .ok litAnnotated := by
  have inferred : litWritten.infer.outcome = .ok litAnnotated := rfl
  have back : litWritten.RefersBack := ⟨by decide, by decide⟩
  exact ⟨inferred, back, by decide, (infer_twice inferred).2.1 back⟩

/-- A struct with a member of a struct that is declared after it, and a variable of it with the
given type. -/
def forward (ty : Ty) : Shader :=
  ⟨[.struct ⟨"A", [("b", .struct "B" [])]⟩, .struct ⟨"B", [("x", .float)]⟩,
    .global ⟨"a", ty, none, none⟩]⟩

/-- What inference gives is not given back: the reference that the first inference puts in is
resolved by the second. -/
theorem infer_unstable :
    let once := Ty.struct "A" [("b", .struct "B" [])]
    let twice := Ty.struct "A" [("b", .struct "B" [("x", .float)])]
    (forward (.struct "A" [])).infer.outcome = .ok (forward once)
      ∧ (forward once).infer.outcome = .ok (forward twice)
      ∧ (forward once).infer.outcome ≠ .ok (forward once) := by
  refine ⟨rfl, rfl, fun again => ?_⟩
  have same := SymbolTable.declaredTypes_of_infer again
  exact absurd same (by decide)

end Shader

end ShaderAlgebra
