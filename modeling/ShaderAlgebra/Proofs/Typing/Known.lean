import ShaderAlgebra.Proofs.Semantics.Eval
import ShaderAlgebra.Proofs.Typing.Builtins
import ShaderAlgebra.Proofs.Typing.Stability
import ShaderAlgebra.Proofs.Typing.Statements

/-!
# Known types

Inference gives no node an unknown type of its own: the type of a node is known if the types of its
parts are, and if the names and functions that it uses have known types (`Site.isKnown_of_fits`). So
what is unknown in an accepted shader was declared so, and there is nothing unknown in it exactly if
the declared types resolve to known ones (`Shader.isKnown_types_iff`).

Declared types are hardly checked. A local variable cannot be `unknown` itself, but it can be an
array or a struct with unknown parts, and globals, parameters and results can be anything
(`Shader.infer_keeps_unknown`).
-/

namespace ShaderAlgebra

open List

variable {ty base : Ty} {args : List Ty} {site : Site} {form : Overload}

/-! ## Known types -/

namespace Ty

lemma areMembersKnown_iff {mems : List (String × Ty)} :
    areMembersKnown mems ↔ ∀ member ∈ mems, member.2.isKnown := by
  induction mems with
  | nil => simp [areMembersKnown]
  | cons member mems ih => simp [areMembersKnown, ih]

/-- Scalars, vectors and matrices are known. -/
lemma isKnown_of_kind? (plain : ty.kind?.isSome) : ty.isKnown := by
  cases ty <;> first | rfl | cases plain

lemma isKnown_of_convertsTo {src tgt : Ty} (known : src.isKnown)
    (conv : src.convertsTo tgt) : tgt.isKnown := by
  simp only [convertsTo, Bool.or_eq_true, decide_eq_true_eq] at conv
  rcases conv with rfl | shp
  · exact known
  · split at shp <;> first | rfl | cases shp

lemma isKnown_binary? {op : BinaryOp} {left right : Ty} (typed : binary? op left right = some ty)
    : ty.isKnown := by
  cases arith : op.isCompoundAssignable with
  | true => exact isKnown_of_kind? (kind?_binary? arith typed)
  | false =>
    rw [binary?_eq_bool arith typed]
    rfl

lemma isKnown_unary? {op : UnaryOp} {opd : Ty} (known : opd.isKnown)
    (typed : unary? op opd = some ty) : ty.isKnown :=
  unary?_eq typed ▸ known

lemma isKnown_element? (known : base.isKnown) (found : base.element? = some ty) : ty.isKnown := by
  cases base with
  | array base size =>
    cases found
    simpa only [isKnown] using known
  | vector | matrix =>
    cases found
    rfl
  | _ => cases found

lemma isKnown_member? {name : String} (known : base.isKnown)
    (found : base.member? name = some ty) : ty.isKnown := by
  cases base with
  | struct own mems =>
    rw [isKnown, areMembersKnown_iff] at known
    obtain ⟨before, after, rfl, -⟩ := lookup_eq_some_iff.mp found
    exact known (name, ty) (by simp)
  | _ => cases found

lemma isKnown_fieldType {name : String} (known : base.isKnown)
    (typed : Expr.fieldType base name = .ok ty) : ty.isKnown := by
  unfold Expr.fieldType at typed
  split at typed
  · obtain ⟨swz, -, sel⟩ := bind_eq_ok.mp typed
    exact isKnown_of_kind? (Value.kind?_resultType sel)
  · split at typed
    · next found =>
      cases typed
      exact isKnown_member? known found
    · cases typed

lemma isKnown_construct (ctd : ty.construct args = .ok ()) : ty.isKnown := by
  obtain ⟨wanted, _, counted, -⟩ := construct_eq_ok.mp ctd
  cases ty <;> first | rfl | cases counted

/-- A struct is constructed from values that convert to its members, so there is one for every
member. -/
lemma isKnown_constructStruct (known : ∀ arg ∈ args, arg.isKnown)
    (ctd : ty.constructStruct args = .ok ()) : ty.isKnown := by
  obtain ⟨name, mems, rfl, counts, conv⟩ := constructStruct_eq_ok.mp ctd
  rw [isKnown, areMembersKnown_iff]
  intro member mem
  rw [← map_fst_zip (Nat.le_of_eq counts)] at mem
  obtain ⟨⟨_, arg⟩, paired, rfl⟩ := mem_map.mp mem
  exact isKnown_of_convertsTo (known arg (of_mem_zip paired).2) (all_eq_true.mp conv _ paired)

end Ty

namespace Signature

lemma isKnown_bind? {keepsInts : Bool} {binder gen : Ty}
    (bound : bind? keepsInts binder = some gen) : gen.isKnown := by
  unfold bind? at bound
  split at bound <;> cases bound <;> first | rfl | (split <;> rfl)

lemma isKnown_resolve? {s : Signature} (known : ∀ arg ∈ args, arg.isKnown)
    (res : s.resolve? args = some ty) : ty.isKnown := by
  obtain ⟨-, gen, bound, -, result⟩ := resolve?_eq_some.mp res
  have knownGeneric : ∀ g ∈ gen, g.isKnown := by
    intro g isGen
    unfold generic? at bound
    split at bound
    · cases bound
      cases isGen
    · obtain ⟨g', isBound, rfl⟩ := Option.map_eq_some_iff.mp bound
      cases isGen
      exact isKnown_bind? isBound
  have knownMatrix : ∀ m ∈ s.matrix? args, m.isKnown := by
    intro m isMat
    obtain ⟨pair, found, rfl⟩ := Option.map_eq_some_iff.mp isMat
    exact known _ (of_mem_zip (mem_of_find?_eq_some found)).2
  unfold resultType? at result
  split at result
  · exact knownGeneric ty result
  · cases result
    rfl
  · cases result
    rfl
  · exact knownMatrix ty result
  · split at result <;> cases result
    rfl

end Signature

lemma Builtin.isKnown_resolve {bi : Builtin} (known : ∀ arg ∈ args, arg.isKnown)
    (res : bi.resolve args = .ok ty) : ty.isKnown := by
  obtain ⟨s, -, taken⟩ := exists_of_findSome?_eq_some (resolve_eq_ok.mp res)
  exact Signature.isKnown_resolve? known taken

/-! ## Known nodes -/

namespace Site

lemma mem_overloads_of_overloadFor {fn : String} {tys : List Ty}
    (found : site.overloadFor fn tys = .ok form) : form ∈ site.symbols.overloads fn := by
  simp only [overloadFor] at found
  split at found
  · cases found
  · split at found
    · next taken =>
      cases found
      rcases Option.or_eq_some_iff.mp taken with direct | ⟨-, conv⟩
      · exact mem_of_find?_eq_some direct
      · exact mem_of_find?_eq_some conv
    · split at found <;> cases found

/-- The results of the declared functions are known. -/
def KnowsResults (site : Site) : Prop :=
  ∀ function, ∀ form ∈ site.symbols.overloads function, form.result.isKnown = true

lemma isKnown_callType (results : site.KnowsResults) {node : Expr} {fn : String}
    {args : List Expr} (known : ∀ arg ∈ args, arg.ty.isKnown)
    (typed : site.callType node fn args = .ok ty) : ty.isKnown := by
  have knownTypes : ∀ arg ∈ args.map Expr.ty, arg.isKnown := forall_mem_map.mpr known
  rw [callType_eq_ok] at typed
  split at typed
  · obtain ⟨ctd, rfl⟩ := typed
    exact Ty.isKnown_construct ctd
  · obtain ⟨ctd, rfl⟩ := typed
    exact Ty.isKnown_constructStruct knownTypes ctd
  · exact Builtin.isKnown_resolve knownTypes typed
  · obtain ⟨form, found, -, rfl⟩ := typed
    exact results fn form (mem_overloads_of_overloadFor found)

/-- A node over known parts is known where names and functions are. -/
lemma isKnown_of_fits {nms : Names} (results : site.KnowsResults)
    (known : nms.All fun ty => ty.isKnown) {e : Expr} (parts : ∀ part ∈ e.children, part.ty.isKnown)
    (fits : site.FitsUnder nms e) : e.ty.isKnown := by
  cases e with
  | literal val ty =>
    obtain rfl : ty = .scalar val.kind := fits
    rfl
  | ident name ty => exact known name ty fits
  | field base name ty => exact Ty.isKnown_fieldType (parts base mem_cons_self) fits
  | index base pos ty => exact Ty.isKnown_element? (parts base mem_cons_self) fits.2
  | unary op opd ty => exact Ty.isKnown_unary? (parts opd mem_cons_self) fits
  | binary op left right ty => exact Ty.isKnown_binary? fits
  | call fn args ty => exact isKnown_callType results parts fits
  | conditional cond acc rej ty =>
    obtain ⟨-, -, rfl⟩ : cond.ty = Ty.bool ∧ acc.ty = rej.ty ∧ ty = acc.ty := fits
    exact parts acc (mem_cons_of_mem _ mem_cons_self)
  | assign op tgt val ty =>
    obtain ⟨-, -, rfl⟩ : tgt.isLvalue ∧ tgt.ty.assignableFrom op val.ty ∧ ty = tgt.ty := fits
    exact parts tgt mem_cons_self

end Site

lemma Expr.isKnown_of_isAnnotatedUnder {nms : Names} (results : site.KnowsResults)
    (known : nms.All fun ty => ty.isKnown) {e : Expr}
    (annotated : e.IsAnnotatedUnder site nms) : e.ty.isKnown := by
  induction e using Expr.induction with
  | node e ih =>
    exact Site.isKnown_of_fits results known (fun part mem => ih part mem (annotated.part mem))
      (annotated e .root)

/-! ## Known shaders -/

namespace SymbolTable

/-- The declared structs are known. -/
def KnowsStructs (table : SymbolTable) : Prop :=
  ∀ name, ∀ ty ∈ table.structType? name, ty.isKnown = true

mutual

/-- A type resolves to a known one exactly if it is known itself and the structs that it refers to
are. -/
lemma isKnown_resolve_iff (tbl : SymbolTable) : (ty : Ty) → ((tbl.resolve ty).isKnown ↔ ty.isKnown
      ∧ ∀ name ∈ ty.references, ∀ decl ∈ tbl.structType? name, decl.isKnown)
  | .struct name [] => by
    rw [resolve_reference]
    cases found : tbl.structType? name <;>
      simp [Ty.references, Ty.isKnown, Ty.areMembersKnown, found]
  | .struct name (member :: mems) => by
    have ins := areMembersKnown_resolveMembers_iff tbl (member :: mems)
    simpa [resolve, Ty.references, Ty.isKnown] using ins
  | .array base size => by
    have ins := isKnown_resolve_iff tbl base
    simpa [resolve, Ty.references, Ty.isKnown] using ins
  | .void | .scalar _ | .vector .. | .matrix .. | .function .. | .unknown => by
    simp [resolve, Ty.references]

lemma areMembersKnown_resolveMembers_iff (tbl : SymbolTable) : (mems : List (String × Ty)) →
    (Ty.areMembersKnown (tbl.resolveMembers mems) ↔ Ty.areMembersKnown mems
      ∧ ∀ name ∈ Ty.referencesOfMembers mems, ∀ decl ∈ tbl.structType? name, decl.isKnown)
  | [] => by simp [resolveMembers, Ty.referencesOfMembers]
  | (name, ty) :: mems => by
    simp only [resolveMembers, Ty.referencesOfMembers, Ty.areMembersKnown, Bool.and_eq_true,
      forall_mem_append, isKnown_resolve_iff tbl ty,
      areMembersKnown_resolveMembers_iff tbl mems]
    tauto

end

lemma KnowsStructs.isKnown_resolve {tbl : SymbolTable} (sts : tbl.KnowsStructs)
    (known : ty.isKnown) : (tbl.resolve ty).isKnown :=
  (isKnown_resolve_iff tbl ty).mpr ⟨known, fun name _ => sts name⟩

/-- Structs with known members are known. -/
lemma knowsStructs_ofShader {shader : Shader} (mems : ∀ decl ∈ shader.structs, decl.ty.isKnown) :
    (ofShader shader).KnowsStructs := by
  have all (sts : List StructDef) (mems : ∀ s ∈ sts, s.ty.isKnown)
      (tbl : SymbolTable) (known : tbl.KnowsStructs) :
      (sts.foldl declareStruct tbl).KnowsStructs := by
    induction sts generalizing tbl with
    | nil => exact known
    | cons s sts ih =>
      obtain ⟨own, others⟩ := forall_mem_cons.mp mems
      refine ih others _ fun name ty found => ?_
      rw [structType?_declareStruct] at found
      split at found
      · exact Option.some.inj found ▸ known.isKnown_resolve own
      · exact known name ty found
  intro name ty found
  rw [structType?, structs_ofShader] at found
  exact all shader.structs mems .empty (fun _ _ found => by cases found) name ty found

end SymbolTable

namespace Overload

lemma mem_of_mem_insert {known : List Overload} {oth : Overload}
    (mem : oth ∈ insert known form) : oth ∈ known ∨ oth = form := by
  unfold insert at mem
  split at mem
  · exact .inl mem
  · simpa using mem

lemma mem_of_mem_distinct {forms : List Overload} (mem : form ∈ distinct forms) : form ∈ forms := by
  have all (forms known : List Overload) (mem : form ∈ forms.foldl insert known) :
      form ∈ known ∨ form ∈ forms := by
    induction forms generalizing known with
    | nil => exact .inl mem
    | cons fst rest ih =>
      rcases ih _ mem with early | late
      · rcases mem_of_mem_insert early with old | rfl
        · exact .inl old
        · exact .inr mem_cons_self
      · exact .inr (mem_cons_of_mem _ late)
  exact (all forms [] mem).resolve_left not_mem_nil

end Overload

namespace Shader

variable {shader annotated : Shader}

/-- The nodes of all expressions of a shader. -/
def nodes (shader : Shader) : List Expr := shader.exprs.flatMap Expr.nodes

/-- The types of a shader: those of its declarations and of its nodes. -/
def types (shader : Shader) : List Ty := shader.declaredTypes ++ shader.nodes.map Expr.ty

/-- The types that a shader is written with, members of structs among them. -/
def writtenTypes (shader : Shader) : List Ty :=
  shader.declaredTypes ++ shader.structs.map StructDef.ty

/-- The nodes of an accepted shader are known if the declared types are. -/
lemma isKnown_nodes (inf : shader.infer.outcome = .ok annotated)
    (known : ∀ ty ∈ annotated.declaredTypes, ty.isKnown) : ∀ e ∈ annotated.nodes, e.ty.isKnown := by
  intro node mem
  obtain ⟨e, own, ins⟩ := mem_flatMap.mp mem
  obtain ⟨site, nms, -, fns, allKnown, isAnn⟩ := exists_isAnnotatedUnder inf known own
  have results : site.KnowsResults := by
    intro fn form isForm
    rw [SymbolTable.overloads, fns] at isForm
    change form ∈ (SymbolTable.ofShader shader).overloads fn at isForm
    rw [SymbolTable.overloads_of_infer inf] at isForm
    obtain ⟨f, decl, rfl⟩ := mem_map.mp (Overload.mem_of_mem_distinct isForm)
    have isItem := mem_functions.mp (mem_filter.mp decl).1
    refine known f.result (mem_flatMap.mpr ⟨_, isItem, mem_append_left _ ?_⟩)
    exact mem_append_right _ (mem_singleton_self _)
  have within : Expr.Within node e := Expr.mem_nodes.mp ins
  exact Expr.isKnown_of_isAnnotatedUnder results allKnown fun s inner =>
    isAnn s (inner.trans within)

/-- There is nothing unknown in an accepted shader exactly if there was nothing in its declared
types: neither in a type as it is written, nor in a struct that it refers to. Local variables are
not `unknown` in any case. -/
theorem isKnown_types_iff (inferred : shader.infer.outcome = .ok annotated) :
    ((∀ ty ∈ annotated.types, ty.isKnown = true) ↔
      ∀ ty ∈ shader.declaredTypes, ty.isKnown = true ∧ ∀ name ∈ ty.references,
        ∀ declared ∈ (SymbolTable.ofShader shader).structType? name, declared.isKnown = true)
    ∧ ((∀ ty ∈ shader.writtenTypes, ty.isKnown = true) →
      ∀ ty ∈ annotated.types, ty.isKnown = true)
    ∧ ∀ f ∈ annotated.functions, ∀ name ty init, .declare name ty init ∈ f.statements →
      ty.isDeclarable = true := by
  have types := SymbolTable.declaredTypes_of_infer inferred
  have known : (∀ ty ∈ annotated.types, ty.isKnown = true) ↔
      ∀ ty ∈ shader.declaredTypes, ((SymbolTable.ofShader shader).resolve ty).isKnown = true := by
    rw [Shader.types, List.forall_mem_append, List.forall_mem_map,
      and_iff_left_of_imp (isKnown_nodes inferred), types, List.forall_mem_map]
  refine ⟨?_, fun written => ?_, fun f mem name ty init isStatement => ?_⟩
  · simpa only [SymbolTable.isKnown_resolve_iff] using known
  · obtain ⟨declared, structs⟩ := List.forall_mem_append.mp written
    have knows := SymbolTable.knowsStructs_ofShader (List.forall_mem_map.mp structs)
    exact known.mpr fun ty mem => knows.isKnown_resolve (declared ty mem)
  · obtain ⟨before, after, split⟩ := List.append_of_mem (mem_functions.mp mem)
    obtain ⟨site, names, -, -, isAnnotated⟩ := exists_isAnnotated inferred split
    obtain ⟨_, -, -, declared⟩ := Stmt.forall_mem_nestedInAll Stmt.StandsUnder.part
      (Stmt.standsUnder_of_mem (P := fun _ => True) (fun _ _ _ => trivial) (fun _ _ => trivial)
        isAnnotated) _ isStatement
    exact declared.1

/-- A shader with structs in arrays, a loop and a call. Its structs are written as `point`, and its
nodes with a note of their types. -/
def measured (point : Ty) (note : Ty → Ty) : Shader :=
  let p := Expr.ident "p" (note point)
  let i := Expr.ident "i" (note .int)
  let sum := Expr.ident "sum" (note .float)
  let number (n : Int32) := Expr.literal (.int n) (note .int)
  ⟨[.struct ⟨"Point", [("x", .vec .two)]⟩,
    .function
      { name := "measure"
        parameters := [⟨"p", point, .input⟩]
        result := .float
        body := [.ret (some (.call "length" [.field p "x" (note (.vec .two))] (note .float)))] },
    .global ⟨"points", .array point 3, some .uniform, none⟩,
    .function
      { name := "f"
        parameters := []
        result := .float
        body :=
          [.declare "sum" .float (some (number 0)),
            .loop (some (.declare "i" .int (some (number 0))))
              (some (.binary .less i (number 3) (note .bool)))
              (some (.assign (some .add) i (number 1) (note .int)))
              [.declare "p" point
                  (some (.index (.ident "points" (note (.array point 3))) i (note point))),
                .eval (.assign (some .add) sum (.call "measure" [p] (note .float)) (note .float))],
            .ret (some sum)] }]⟩

/-- The shader as it is written: structs by name, and no types at its nodes. -/
def measuredWritten : Shader := measured (.struct "Point" []) fun _ => .unknown

def measuredAnnotated : Shader := measured (.struct "Point" [("x", .vec .two)]) id

/-- All 26 types of `measuredAnnotated` are known. -/
theorem isKnown_types_measured :
    measuredWritten.infer.outcome = .ok measuredAnnotated ∧ measuredAnnotated.types.length = 26
      ∧ (∀ ty ∈ measuredWritten.writtenTypes, ty.isKnown = true)
      ∧ ∀ ty ∈ measuredAnnotated.types, ty.isKnown = true := by
  have inferred : measuredWritten.infer.outcome = .ok measuredAnnotated := rfl
  have known : ∀ ty ∈ measuredWritten.writtenTypes, ty.isKnown = true := by decide
  exact ⟨inferred, rfl, known, (isKnown_types_iff inferred).2.1 known⟩

/-- A global that is declared with an unknown type, and used. -/
def unchecked : Shader :=
  ⟨[.global ⟨"g", .unknown, none, none⟩,
    .function
      { name := "f"
        parameters := []
        result := .void
        body := [.eval (.ident "g" .unknown)] }]⟩

/-- Inference accepts it, and leaves the global and the node unknown. -/
theorem infer_keeps_unknown :
    unchecked.infer.outcome = .ok unchecked
      ∧ (∃ ty ∈ unchecked.declaredTypes, ty.isKnown = false)
      ∧ ∃ e ∈ unchecked.nodes, e.ty.isKnown = false :=
  ⟨rfl, ⟨.unknown, by decide, rfl⟩, ⟨_, List.mem_singleton_self _, rfl⟩⟩

end Shader

end ShaderAlgebra
