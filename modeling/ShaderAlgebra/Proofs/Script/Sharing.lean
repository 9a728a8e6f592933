import ShaderAlgebra.Proofs.Script.Storage
import ShaderAlgebra.Proofs.Typing.Statements

/-!
# Kept values share no storage

`Shader.Stores` says which values of a shader, of which types, its script keeps. Every slot of the
script is for one of them, and no value of a composite type is storage of a variable
(`Shader.lower_keeps_copies`). Assignments are asked to be whole statements or steps of loops.

A script may also write to an argument in place, and then the caller would see it. The functions
that do so copy the argument first (`FunctionDef.CopiesArguments`).
-/

namespace ShaderAlgebra

open List

/-! ## Stored values -/

/-- The type of a variable's first value, or of a returned value. -/
def Stmt.storedTypes : Stmt → List Ty
  | .declare _ ty init => [(init.map Expr.ty).getD ty]
  | .ret value => (value.map Expr.ty).toList
  | _ => []

namespace Shader

/-- The types of the first values and the returned values of a shader, in order. -/
def storedTypes (shader : Shader) : List Ty :=
  shader.items.flatMap fun
    | .struct _ => []
    | .global g => [(g.init.map Expr.ty).getD g.ty]
    | .function f => f.statements.flatMap Stmt.storedTypes

/-- The shader keeps the value of the expression: as a first value, a returned one, or inside of an
expression. -/
inductive Keeps (shader : Shader) : Expr → Prop
  | initializer {g e} : g ∈ shader.globals → e ∈ g.init → Keeps shader e
  | inInitializer {g e value} : g ∈ shader.globals → e ∈ g.init → e.Keeps value →
    Keeps shader value
  | statement {f s e} : f ∈ shader.functions → s ∈ f.statements → e ∈ s.keptExprs → Keeps shader e
  | inStatement {f s e value} : f ∈ shader.functions → s ∈ f.statements → e ∈ s.exprs →
    e.Keeps value → Keeps shader value

/-- The script is that of a value of the type which the shader stores: one that it keeps, that of a
variable before it has one, or the own copy of an argument. -/
inductive Stores (shader : Shader) : Ty → Script.Expr → Prop
  | value {e j} : shader.Keeps e → e.lowerValue shader.structTable = .ok j → Stores shader e.ty j
  | unset {ty j} : shader.structTable.IsDefault ty j → Stores shader ty j
  | argument {f p shape} : f ∈ shader.functions → p ∈ f.parameters → p.ty.shape? = some shape →
    Stores shader p.ty (.copy shape (.ident (Script.mangle p.name)))

/-- The shader keeps what the statement keeps. -/
structure Holds (shader : Shader) (s : Stmt) : Prop where
  own : ∀ e ∈ s.keptExprs, shader.Keeps e
  inner : ∀ e ∈ s.exprs, ∀ value, e.Keeps value → shader.Keeps value

/-- The values in a script are such that the shader stores, and those that are not inside of
expressions are of the given types, in order. -/
structure Fills (shader : Shader) (types : List Ty)
    (kept : (Script.Expr → List Script.Expr) → List Script.Expr) : Prop where
  slots : ∀ k ∈ kept Script.Expr.slots, ∃ ty, shader.Stores ty k
  stored : Forall₂ shader.Stores types (kept fun _ => [])

namespace Fills

variable {shader : Shader} {ty : Ty} {e : Expr} {j : Script.Expr}

lemma append {types types' : List Ty}
    {kept kept' : (Script.Expr → List Script.Expr) → List Script.Expr}
    (first : shader.Fills types kept) (rest : shader.Fills types' kept') :
    shader.Fills (types ++ types') fun inside => kept inside ++ kept' inside :=
  ⟨forall_mem_append.mpr ⟨first.slots, rest.slots⟩, rel_append first.stored rest.stored⟩

lemma of_stores (own : shader.Stores ty j) (inner : ∀ k ∈ j.slots, ∃ ty, shader.Stores ty k) :
    shader.Fills [ty] fun inside => j :: inside j :=
  ⟨forall_mem_cons.mpr ⟨⟨ty, own⟩, inner⟩, .cons own .nil⟩

/-- The slots of an expression's script are for what the expression keeps. -/
lemma of_builtFrom (inner : ∀ value, e.Keeps value → shader.Keeps value)
    (built : j.BuiltFrom (e.materials shader.structTable)) :
    shader.Fills [] fun inside => inside j := by
  refine ⟨fun k inSlots => ?_, .nil⟩
  obtain ⟨value, kept, lowered⟩ := built.kept_of_mem_slots inSlots
  exact ⟨_, .value (inner value kept) lowered⟩

lemma of_lowerValue (keeps : shader.Keeps e) (inner : ∀ value, e.Keeps value → shader.Keeps value)
    (lowered : e.lowerValue shader.structTable = .ok j) :
    shader.Fills [e.ty] fun inside => j :: inside j :=
  of_stores (.value keeps lowered)
    (of_builtFrom inner (Expr.builtFrom_lowerValue (e.isBuilt _) lowered)).slots

/-- A variable without a first value has slots for the defaults of its parts. -/
lemma of_initialValue {name : String} {init : Option Expr} (keeps : ∀ e ∈ init, shader.Keeps e)
    (inner : ∀ e ∈ init, ∀ value, e.Keeps value → shader.Keeps value)
    (lowered : ty.initialValue shader.structTable name init = .ok j) :
    shader.Fills [(init.map Expr.ty).getD ty] fun inside => j :: inside j := by
  rcases Ty.initialValue_eq_ok lowered with ⟨e, rfl, loweredValue⟩ | ⟨rfl, isDefault⟩
  · exact of_lowerValue (keeps e rfl) (inner e rfl) loweredValue
  · refine of_stores (.unset isDefault) fun k inSlots => ?_
    let M : Script.Expr.Materials :=
      ⟨fun _ => False, fun k => ∃ ty, shader.structTable.IsDefault ty k, fun _ => False⟩
    have built := isDefault.builtFrom (M := M) fun ty _ isDefault => ⟨ty, isDefault⟩
    obtain ⟨ty, isDefault⟩ := built.kept_of_mem_slots inSlots
    exact ⟨ty, .unset isDefault⟩

end Fills

end Shader

/-! ## Slots of lowered statements -/

namespace Stmt

variable {shader : Shader}

mutual

/-- The slots of a lowered statement are for what it keeps. -/
lemma fills_lower : (s : Stmt) → (∀ part ∈ nested s, shader.Holds part) → ∀ {s' : Script.Stmt},
    s.lower shader.structTable = .ok s' →
      shader.Fills ((nested s).flatMap storedTypes) (Script.Stmt.stored · s')
  | .declare name ty init, holds, _, lowered => by
    obtain ⟨value, isValue, rfl⟩ := lower_eq_ok lowered
    simp only [nested, forall_mem_singleton] at holds
    exact .of_initialValue (fun e own => holds.own e (Option.mem_toList.mpr own))
      (fun e own => holds.inner e (by simp_all [exprs, keptExprs])) isValue
  | .eval e, holds, _, lowered => by
    obtain ⟨j, isScript, rfl⟩ := lower_eq_ok lowered
    simp only [nested, forall_mem_singleton] at holds
    exact .of_builtFrom (holds.inner e (by simp [exprs, effects])) ((e.isBuilt _).lower isScript)
  | .ret (some e), holds, _, lowered => by
    obtain ⟨value, isValue, rfl⟩ := lower_eq_ok lowered
    obtain ⟨j, loweredValue, rfl⟩ := map_eq_ok.mp isValue
    simp only [nested, forall_mem_singleton] at holds
    have filled := Shader.Fills.of_lowerValue (holds.own e (by simp [keptExprs]))
      (holds.inner e (by simp [exprs, keptExprs])) loweredValue
    simpa [nested, storedTypes, Script.Stmt.stored] using filled
  | .branch test accept reject, holds, _, lowered => by
    obtain ⟨_, isTest, _, isAccept, _, isReject, rfl⟩ := lower_eq_ok lowered
    simp only [nested, forall_mem_cons, forall_mem_append] at holds
    simp only [nested, flatMap_cons, flatMap_append]
    have filled := Shader.Fills.of_builtFrom (holds.1.inner test (by simp [exprs, conditions]))
      ((test.isBuilt _).lower isTest)
    exact (filled.append (fills_lowerAll accept holds.2.1 isAccept)).append
      (fills_lowerAll reject holds.2.2 isReject)
  | .loop init test step body, holds, _, lowered => by
    obtain ⟨_, isInit, _, isTest, _, isStep, _, isBody, rfl⟩ := lower_eq_ok lowered
    simp only [nested, forall_mem_cons, forall_mem_append] at holds
    have ofOption {e : Option Expr} {j : Option Script.Expr}
        (lowered : e.mapM (fun e => e.lower shader.structTable) = .ok j)
        (own : ∀ e' ∈ e, e' ∈ (Stmt.loop init test step body).exprs) :
        shader.Fills [] (j.toList.flatMap ·) := by
      cases e with
      | none =>
        cases lowered
        exact ⟨by simp, .nil⟩
      | some e =>
        obtain ⟨j, isScript, rfl⟩ := map_eq_ok.mp lowered
        have filled := Shader.Fills.of_builtFrom (holds.1.inner e (own e rfl))
          ((e.isBuilt _).lower isScript)
        simpa using filled
    have filled := (((fills_lowerOption init holds.2.1 isInit).append
      (ofOption isTest fun e isSome => by simp_all [exprs, conditions])).append
      (ofOption isStep fun e isSome => by simp_all [exprs, effects])).append
        (fills_lowerAll body holds.2.2 isBody)
    simpa [nested, storedTypes, Script.Stmt.stored] using filled
  | .block body, holds, _, lowered => by
    obtain ⟨body', isBody, rfl⟩ := lower_eq_ok lowered
    simp only [nested, forall_mem_cons] at holds
    exact fills_lowerAll body holds.2 isBody
  | .ret none, _, _, lowered | .leave, _, _, lowered | .next, _, _, lowered => by
    cases lowered
    exact ⟨by simp [Script.Stmt.stored], .nil⟩

lemma fills_lowerOption : (s : Option Stmt) → (∀ part ∈ nestedInOption s, shader.Holds part) →
    ∀ {s' : Option Script.Stmt}, lowerOption shader.structTable s = .ok s' →
      shader.Fills ((nestedInOption s).flatMap storedTypes) (Script.Stmt.storedInOption · s')
  | none, _, _, lowered => by
    cases lowered
    exact ⟨by simp [Script.Stmt.storedInOption], .nil⟩
  | some s, holds, _, lowered => by
    obtain ⟨s', isScript, rfl⟩ := lowerOption_some_eq_ok lowered
    exact fills_lower s holds isScript

lemma fills_lowerAll : (ss : List Stmt) → (∀ part ∈ nestedInAll ss, shader.Holds part) →
    ∀ {ss' : List Script.Stmt}, lowerAll shader.structTable ss = .ok ss' →
      shader.Fills ((nestedInAll ss).flatMap storedTypes) (Script.Stmt.storedInAll · ss')
  | [], _, _, lowered => by
    cases lowered
    exact ⟨by simp [Script.Stmt.storedInAll], .nil⟩
  | s :: ss, holds, _, lowered => by
    obtain ⟨_, isFirst, _, isRest, rfl⟩ := lowerAll_cons_eq_ok lowered
    simp only [nestedInAll, forall_mem_append] at holds
    simp only [nestedInAll, flatMap_append]
    exact (fills_lower s holds.1 isFirst).append (fills_lowerAll ss holds.2 isRest)

end

end Stmt

/-! ## Arguments that are written to -/

namespace Expr

/-- The variable of that name is what a chain of fields and elements starts from. -/
inductive IsRootedAt (name : String) : Expr → Prop
  | ident {ty} : IsRootedAt name (.ident name ty)
  | field {base field ty} : IsRootedAt name base → IsRootedAt name (.field base field ty)
  | index {base position ty} : IsRootedAt name base → IsRootedAt name (.index base position ty)

lemma IsRootedAt.root? {name : String} {e : Expr} (rooted : e.IsRootedAt name) :
    e.root? = some name := by
  induction rooted with
  | ident => rfl
  | field _ ih | index _ ih => exact ih

/-- The expression assigns to the variable of that name, whole or in part. -/
def AssignsTo (e : Expr) (name : String) : Prop :=
  ∃ op target value ty, Within (.assign op target value ty) e ∧ target.IsRootedAt name

lemma mem_writtenAll {es : List Expr} {e : Expr} (mem : e ∈ es) : e.written ⊆ writtenAll es := by
  rw [walk_eq_flatMap writtenAll rfl fun _ _ => rfl]
  exact fun _ inside => mem_flatMap_of_mem mem inside

/-- Every variable that is assigned to counts as written. -/
lemma AssignsTo.mem_written {e : Expr} {name : String} (assigns : e.AssignsTo name) :
    name ∈ e.written := by
  obtain ⟨op, target, value, ty, inside, rooted⟩ := assigns
  induction inside with
  | root => simp [written, rooted.root?]
  | @part node child mem _ ih =>
    cases node with
    | literal | ident => cases mem
    | call function args ty => exact mem_writtenAll mem ih
    | _ =>
      simp only [children, mem_cons, not_mem_nil, or_false] at mem
      rcases mem with rfl | rfl | rfl <;> simp [written, ih]

end Expr

namespace Stmt

lemma mem_writtenOption {e : Expr} {init : Option Expr} (mem : e ∈ init.toList) :
    e.written ⊆ Expr.writtenOption init := by
  cases init with
  | none => cases mem
  | some own =>
    obtain rfl := mem_singleton.mp mem
    exact List.Subset.refl _

lemma written_subset_writtenAll {s : Stmt} {ss : List Stmt} (mem : s ∈ ss) :
    s.written ⊆ writtenAll ss := by
  rw [Expr.walk_eq_flatMap writtenAll rfl fun _ _ => rfl]
  exact fun _ inside => mem_flatMap_of_mem mem inside

lemma written_part {s part : Stmt} (mem : part ∈ s.parts) : part.written ⊆ s.written := by
  cases s with
  | branch test accept reject =>
    rcases mem_append.mp mem with mem | mem
    all_goals
      have inside := written_subset_writtenAll mem
      grind [written]
  | loop init test step body =>
    rcases mem_append.mp mem with isInit | inBody
    · obtain rfl := Option.mem_toList.mp isInit
      grind [written, writtenOption]
    · have inside := written_subset_writtenAll inBody
      grind [written]
  | block body => exact written_subset_writtenAll mem
  | _ => cases mem

lemma written_expr {s : Stmt} {e : Expr} (own : e ∈ s.exprs) : e.written ⊆ s.written := by
  cases s with
  | declare | ret =>
    exact mem_writtenOption (by simpa [exprs, keptExprs, conditions, effects] using own)
  | eval expr =>
    obtain rfl : e = expr := by simpa [exprs, keptExprs, conditions, effects] using own
    exact List.Subset.refl _
  | branch test accept reject =>
    obtain rfl : e = test := by simpa [exprs, keptExprs, conditions, effects] using own
    simp [written]
  | loop init test step body =>
    simp only [exprs, keptExprs, conditions, effects, nil_append, mem_append] at own
    rcases own with isPart | isPart
    all_goals
      have inside := mem_writtenOption isPart
      grind [written]
  | block | leave | next => simp [exprs, keptExprs, conditions, effects] at own

/-- The expressions of all statements inside are looked through. -/
lemma writtenAll_subset {ss : List Stmt} :
    ∀ s ∈ nestedInAll ss, ∀ e ∈ s.exprs, e.written ⊆ writtenAll ss := by
  have inside : ∀ s ∈ nestedInAll ss, s.written ⊆ writtenAll ss := forall_mem_nestedInAll
      (fun s inside part isPart => List.Subset.trans (written_part isPart) inside)
      fun s mem => written_subset_writtenAll mem
  exact fun s mem e own => List.Subset.trans (written_expr own) (inside s mem)

end Stmt

/-- A documented type has a shape. -/
lemma Ty.exists_shape_of_docType : (ty : Ty) → ∀ {doc : String}, ty.docType? = some doc →
    ∃ shape, ty.shape? = some shape
  | .array base size, _, documented => by
    obtain ⟨element, isElement, -⟩ := Option.map_eq_some_iff.mp documented
    obtain ⟨shape, shaped⟩ := exists_shape_of_docType base isElement
    exact ⟨.aggregate, by rw [shape?, shaped]; rfl⟩
  | .struct .., _, _ => ⟨.aggregate, rfl⟩
  | .scalar kind, _, _ => by cases kind <;> exact ⟨_, rfl⟩
  | .vector size kind, _, documented => by
    cases kind with
    | float => exact ⟨_, rfl⟩
    | _ => cases documented
  | .matrix cols rows, _, documented => by
    by_cases square : cols = rows
    · exact ⟨_, if_pos square⟩
    · simp [docType?, shape?, if_neg square] at documented
  | .void, _, documented
  | .function .., _, documented | .unknown, _, documented => by cases documented

namespace Parameter

lemma exists_ownCopy {p : Parameter} {doc : String} (documented : p.ty.docType? = some doc)
    (composite : p.ty.isComposite) : ∃ s, p.ownCopy? = some s := by
  obtain ⟨shape, shaped⟩ := Ty.exists_shape_of_docType p.ty documented
  obtain ⟨notNumber, notBoolean⟩ := Ty.shape_of_isComposite composite shaped
  unfold ownCopy?
  rw [shaped]
  cases shape with
  | number => exact absurd rfl notNumber
  | boolean => exact absurd rfl notBoolean
  | _ => exact ⟨_, rfl⟩

lemma exists_docType_of_lowerAll {ps : List Parameter} {bindings : List Script.Binding}
    (lowered : lowerAll ps = .ok bindings) {p : Parameter} (mem : p ∈ ps) :
    ∃ doc, p.ty.docType? = some doc := by
  induction ps generalizing bindings with
  | nil => cases mem
  | cons first rest ih =>
    simp only [lowerAll, bind_eq_ok, pure_eq_ok] at lowered
    obtain ⟨binding, isFirst, bindings, isRest, rfl⟩ := lowered
    rcases mem_cons.mp mem with rfl | inRest
    · unfold lower at isFirst
      split at isFirst
      · simp only [bind_eq_ok, Ty.docType] at isFirst
        obtain ⟨doc, documented, -⟩ := isFirst
        split at documented
        · next doc found => exact ⟨doc, found⟩
        · cases documented
      · cases isFirst
    · exact ih isRest inRest

end Parameter

namespace FunctionDef

/-- The function assigns to the variable of that name, whole or in part. -/
def AssignsTo (f : FunctionDef) (name : String) : Prop :=
  ∃ s ∈ f.statements, ∃ e ∈ s.exprs, e.AssignsTo name

/-- A script of the function: before the statements of its body stand copies of arguments, and among
them are all composite arguments that the function assigns to. -/
def CopiesArguments (structs : StructTable) (f : FunctionDef) (g : Script.Function) : Prop :=
  ∃ copies body, g.body = copies ++ body ∧ Stmt.lowerAll structs f.body = .ok body
    ∧ (∀ s ∈ copies, ∃ p ∈ f.parameters, p.IsCopiedBy s)
    ∧ ∀ p ∈ f.parameters, p.ty.isComposite = true → f.AssignsTo p.name →
      ∃ s ∈ copies, p.IsCopiedBy s

lemma isCopiedBy_of_mem_copies {f : FunctionDef} {s : Script.Stmt} (mem : s ∈ f.copies) :
    ∃ p ∈ f.parameters, p.IsCopiedBy s := by
  obtain ⟨p, isWritten, own⟩ := mem_filterMap.mp mem
  exact ⟨p, mem_of_mem_filter isWritten, Parameter.isCopiedBy_of_ownCopy own⟩

/-- A lowered function copies the arguments that it writes to. -/
lemma copiesArguments_of_lower {f : FunctionDef} {g : Script.Function}
    (lowered : (f.lower structs).outcome = .ok g) : f.CopiesArguments structs g := by
  obtain ⟨parameters, returns, body, isParameters, isBody, rfl⟩ := lower_eq_ok lowered
  refine ⟨f.copies, body, rfl, isBody, fun s => isCopiedBy_of_mem_copies, ?_⟩
  rintro p mem composite ⟨s, inside, e, own, assigns⟩
  have isWritten : p.name ∈ Stmt.writtenAll f.body :=
    Stmt.writtenAll_subset s inside e own assigns.mem_written
  obtain ⟨doc, documented⟩ := Parameter.exists_docType_of_lowerAll isParameters mem
  obtain ⟨copied, isCopy⟩ := Parameter.exists_ownCopy documented composite
  refine ⟨copied, mem_filterMap.mpr ⟨p, mem_filter.mpr ⟨mem, ?_⟩, isCopy⟩,
    Parameter.isCopiedBy_of_ownCopy isCopy⟩
  simpa using isWritten

end FunctionDef

/-! ## Shaders -/

namespace Shader

variable {shader annotated : Shader} {structs : StructTable} {j : Script.Expr}

/-- Whether assignments stand only as whole statements or steps of loops. -/
def AssignsWhole (shader : Shader) : Prop :=
  (∀ g ∈ shader.globals, ∀ e ∈ g.init, e.IsAssignFree)
    ∧ ∀ f ∈ shader.functions, ∀ s ∈ f.statements,
      (∀ e ∈ s.keptExprs ++ s.conditions, e.IsAssignFree)
        ∧ ∀ e ∈ s.effects, ∀ part ∈ e.children, part.IsAssignFree

instance (shader : Shader) : Decidable shader.AssignsWhole :=
  inferInstanceAs (Decidable (_ ∧ _))

lemma isStorage_of_isDefault {ty : Ty} (isDefault : structs.IsDefault ty j) :
    j.isStorage = false := by
  obtain ⟨node, depth, made⟩ := isDefault
  unfold Ty.defaultWith at made
  split at made
  · simp only [bind_eq_ok, pure_eq_ok] at made
    obtain ⟨_, -, rfl⟩ := made
    rfl
  · cases depth with
    | zero => cases made
    | succ depth =>
      simp only [StructTable.defaultNamed, bind_eq_ok, pure_eq_ok] at made
      obtain ⟨_, -, rfl⟩ := made
      rfl
  · simp only [bind_eq_ok, pure_eq_ok] at made
    obtain ⟨_, -, rfl⟩ := made
    rfl
  · split at made <;> cases made <;> rfl

/-- No stored value of a composite type is storage. -/
lemma isStorage_of_stores (accepted : shader.infer.outcome = .ok annotated)
    (whole : annotated.AssignsWhole) {ty : Ty} (stores : annotated.Stores ty j)
    (composite : ty.isComposite) : j.isStorage = false := by
  obtain ⟨globalsWhole, functionsWhole⟩ := whole
  cases stores with
  | unset isDefault => exact isStorage_of_isDefault isDefault
  | argument _ _ shaped => exact Script.isStorage_copy composite shaped _
  | value keeps lowered =>
    cases keeps with
    | initializer mem own =>
      obtain ⟨site, names, annotatedInit⟩ := exists_isAnnotatedUnder_of_global accepted mem own
      exact Expr.isStorage_lowerValue annotatedInit (globalsWhole _ mem _ own) composite lowered
    | inInitializer mem own keeps =>
      obtain ⟨site, names, annotatedInit⟩ := exists_isAnnotatedUnder_of_global accepted mem own
      refine Expr.isStorage_of_keeps annotatedInit (fun part isPart => ?_) keeps composite lowered
      exact (globalsWhole _ mem _ own).within (.part isPart .root)
    | statement mem inside own =>
      obtain ⟨site, names, annotatedExpr⟩ := exists_isAnnotatedUnder_of_function accepted mem inside
        (mem_append_left _ (mem_append_left _ own))
      exact Expr.isStorage_lowerValue annotatedExpr
        ((functionsWhole _ mem _ inside).1 _ (mem_append_left _ own)) composite lowered
    | inStatement mem inside own keeps =>
      obtain ⟨site, names, annotatedExpr⟩ :=
        exists_isAnnotatedUnder_of_function accepted mem inside own
      refine Expr.isStorage_of_keeps annotatedExpr (fun part isPart => ?_) keeps composite lowered
      obtain ⟨values, effects⟩ := functionsWhole _ mem _ inside
      rcases mem_append.mp own with isValue | isEffect
      · exact (values _ isValue).within (.part isPart .root)
      · exact effects _ isEffect part isPart

lemma fills_function {f : FunctionDef} (mem : f ∈ shader.functions) {g : Script.Function}
    (lowered : (f.lower shader.structTable).outcome = .ok g) :
    shader.Fills (f.statements.flatMap Stmt.storedTypes) (Script.Stmt.storedInAll · g.body) := by
  obtain ⟨parameters, returns, body, -, isBody, rfl⟩ := FunctionDef.lower_eq_ok lowered
  have copied (copies : List Script.Stmt) (own : copies ⊆ f.copies) :
      shader.Fills (f.statements.flatMap Stmt.storedTypes)
        (Script.Stmt.storedInAll · (copies ++ body)) := by
    induction copies with
    | nil =>
      exact Stmt.fills_lowerAll f.body (fun s inside =>
        ⟨fun e => .statement mem inside, fun e own _ => .inStatement mem inside own⟩) isBody
    | cons s copies ih =>
      rw [cons_subset] at own
      obtain ⟨p, isParameter, shape, shaped, rfl⟩ := FunctionDef.isCopiedBy_of_mem_copies own.1
      have single : shader.Fills [] fun inside => inside (.assign none
          (.ident (Script.mangle p.name)) (.copy shape (.ident (Script.mangle p.name)))) := by
        have slot := Stores.argument mem isParameter shaped
        refine ⟨?_, .nil⟩
        cases shape <;> exact forall_mem_singleton.mpr ⟨p.ty, slot⟩
      exact single.append (ih own.2)
  exact copied f.copies (List.Subset.refl _)

/-- What the script of a shader keeps. -/
lemma fills_of_lower {script : Script.Module} (lowered : shader.lower.outcome = .ok script) :
    shader.Fills shader.storedTypes (script.items.flatMap <| Script.Item.stored ·) := by
  obtain ⟨-, related⟩ := lower_eq_ok lowered
  have each {items items'} (own : items ⊆ shader.items)
      (related : Forall₂ (fun item item' => (item.lower shader.structTable).outcome = .ok item')
        items items') :
      shader.Fills (mk items).storedTypes (items'.flatMap <| Script.Item.stored ·) := by
    induction related with
    | nil => exact ⟨by simp, .nil⟩
    | @cons item item' _ _ loweredItem _ ih =>
      rw [cons_subset] at own
      refine .append ?_ (ih own.2)
      have opened := Item.lower_eq_ok loweredItem
      cases item with
      | struct declaration =>
        obtain ⟨properties, rfl⟩ := opened
        exact ⟨by simp [Script.Item.stored], .nil⟩
      | global g =>
        obtain ⟨docType, value, isValue, isItem⟩ := GlobalVar.lower_eq_ok opened
        have isGlobal := mem_globals.mpr own.1
        have filled := Fills.of_initialValue (fun e own => .initializer isGlobal own)
          (fun e own _ => .inInitializer isGlobal own) isValue
        rcases isItem with rfl | ⟨_, rfl⟩ <;> exact filled
      | function f =>
        obtain ⟨g, loweredFunction, rfl⟩ := opened
        exact fills_function (mem_functions.mpr own.1) loweredFunction
  exact each (List.Subset.refl _) related

lemma forall₂_functions {script : Script.Module} (lowered : shader.lower.outcome = .ok script) :
    Forall₂ (fun f g => (f.lower shader.structTable).outcome = .ok g) shader.functions
      script.functions := by
  obtain ⟨-, related⟩ := lower_eq_ok lowered
  unfold functions Script.Module.functions
  generalize shader.structTable = structs at related ⊢
  generalize shader.items = items, script.items = items' at related ⊢
  induction related with
  | nil => exact .nil
  | @cons item item' _ _ loweredItem _ ih =>
    have opened := Item.lower_eq_ok loweredItem
    cases item with
    | struct declaration =>
      obtain ⟨properties, rfl⟩ := opened
      exact ih
    | global g =>
      obtain ⟨_, _, -, isItem⟩ := GlobalVar.lower_eq_ok opened
      rcases isItem with rfl | ⟨_, rfl⟩ <;> exact ih
    | function f =>
      obtain ⟨g, loweredFunction, rfl⟩ := opened
      exact .cons loweredFunction ih

/-- Scripts of accepted shaders keep no storage of a variable. Every value that a script keeps is
for a value that the shader stores, first values and returned values one by one, and none for a
vector, a matrix, an array or a struct is storage already. Functions copy the composite arguments
that they assign to before they do anything else. -/
theorem lower_keeps_copies {script : Script.Module}
    (accepted : shader.infer.outcome = .ok annotated) (whole : annotated.AssignsWhole)
    (lowered : annotated.lower.outcome = .ok script) :
    (∀ j ∈ script.slots, ∃ ty, annotated.Stores ty j)
      ∧ List.Forall₂ annotated.Stores annotated.storedTypes script.stored
      ∧ (∀ ty j, annotated.Stores ty j → ty.isComposite = true → j.isStorage = false)
      ∧ List.Forall₂ (FunctionDef.CopiesArguments annotated.structTable) annotated.functions
        script.functions :=
  ⟨(fills_of_lower lowered).slots, (fills_of_lower lowered).stored,
    fun _ _ => isStorage_of_stores accepted whole,
    (forall₂_functions lowered).imp fun _ _ => FunctionDef.copiesArguments_of_lower⟩

/-- A function that writes to a part of its argument inside of a block, and then keeps the argument
or its opposite. -/
def moved : Shader :=
  let v := Expr.ident "v" (.vec .three)
  ⟨[.function
    { name := "move"
      parameters := [⟨"v", .vec .three, .input⟩, ⟨"x", .float, .input⟩, ⟨"back", .bool, .input⟩]
      result := .vec .three
      body :=
        [.block [.eval (.assign none (.field v "x" .float) (.ident "x" .float) .float)],
          .declare "w" (.vec .three)
            (some (.conditional (.ident "back" .bool) (.unary .negate v (.vec .three)) v
              (.vec .three))),
          .ret (some (.ident "w" (.vec .three)))] }]⟩

/-- Its script copies the argument first, again where it is kept, and the result. -/
def movedScript : Script.Module :=
  let v := Script.Expr.ident "v"
  let copy := Script.Expr.copy (.vector .three)
  ⟨[.function
    { name := "move"
      parameters := [⟨"v", "vec3"⟩, ⟨"x", "number"⟩, ⟨"back", "boolean"⟩]
      returns := some "vec3"
      body :=
        [.eval (.assign none v (copy v)),
          .block [.eval (.assign none (.index v (.int 0)) (.ident "x"))],
          .declare "w" (.conditional (.ident "back") (.vectorOut .three "negate" [v]) (copy v)),
          .ret (some (copy (.ident "w")))] }]⟩

/-- The six slots of `movedScript` hold no storage. -/
theorem lower_keeps_copies_moved :
    moved.infer.outcome = .ok moved ∧ moved.AssignsWhole
      ∧ moved.lower.outcome = .ok movedScript ∧ movedScript.slots.length = 6
      ∧ (∀ j ∈ movedScript.slots, ∃ ty, moved.Stores ty j)
      ∧ moved.storedTypes = [.vec .three, .vec .three]
      ∧ List.Forall₂ moved.Stores moved.storedTypes movedScript.stored
      ∧ (∀ ty j, moved.Stores ty j → ty.isComposite = true → j.isStorage = false)
      ∧ List.Forall₂ (FunctionDef.CopiesArguments moved.structTable) moved.functions
        movedScript.functions := by
  have accepted : moved.infer.outcome = .ok moved := rfl
  have whole : moved.AssignsWhole := by decide
  have lowered : moved.lower.outcome = .ok movedScript := rfl
  have ⟨slots, stored, rest⟩ := lower_keeps_copies accepted whole lowered
  exact ⟨accepted, whole, lowered, rfl, slots, rfl, stored, rest⟩

end Shader

end ShaderAlgebra
