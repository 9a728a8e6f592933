import ShaderAlgebra.Proofs.Script.Origin

/-!
# Storage in scripts

A shader copies a vector, a matrix, an array or a struct wherever it keeps it, and a script shares
it. So a script may keep such a value only if no variable has it already. The places where a script
keeps values are read off the script alone (`Script.Module.slots`), and so is whether a value may be
the storage of a variable (`Script.Expr.isStorage`).

What an annotated expression keeps is no storage if its type is composite
(`Expr.isStorage_of_keeps`). The reason is that lowering copies what denotes storage, and that
scripts of other composite expressions are calls, objects and choices between such.
-/

namespace ShaderAlgebra

variable {ty : Ty}

/-! ## Slots of scripts -/

namespace Script

namespace Expr

/-- Whether the value may be storage that a variable has: what a name stands for, a part of such
storage, a choice that may give it, or what an assignment leaves. -/
def isStorage : Expr → Bool
  | .ident _ => true
  | .member base _ => isStorage base
  | .index base _ => isStorage base
  | .conditional _ accept reject => isStorage accept || isStorage reject
  | .assign .. => true
  | _ => false

/-- The values that an expression keeps for later, at any depth. -/
def slots (e : Expr) : List Expr := e.nodes.flatMap ownSlots

lemma BuiltFrom.kept_of_mem_slots {M : Materials} {e k : Expr} (built : BuiltFrom M e)
    (mem : k ∈ e.slots) : M.kept k := by
  obtain ⟨n, inside, own⟩ := List.mem_flatMap.mp mem
  exact built.of_mem_slots inside own

end Expr

namespace Stmt

mutual

/-- The values that a statement keeps for later: first values of variables, returned values, and
those inside of its expressions. -/
def stored (inside : Expr → List Expr) : Stmt → List Expr
  | .declare _ init => init :: inside init
  | .eval expr => inside expr
  | .ret value => value.toList.flatMap fun e => e :: inside e
  | .branch condition accept reject =>
    inside condition ++ storedInAll inside accept ++ storedInAll inside reject
  | .loop init condition step body =>
    storedInOption inside init ++ condition.toList.flatMap inside ++ step.toList.flatMap inside
      ++ storedInAll inside body
  | .block body => storedInAll inside body
  | .leave | .next => []

def storedInOption (inside : Expr → List Expr) : Option Stmt → List Expr
  | none => []
  | some s => stored inside s

def storedInAll (inside : Expr → List Expr) : List Stmt → List Expr
  | [] => []
  | s :: ss => stored inside s ++ storedInAll inside ss

end

end Stmt

/-- The values that an item keeps for later. -/
def Item.stored (inside : Expr → List Expr) : Item → List Expr
  | .typedef .. => []
  | .constant _ value | .global _ value _ => value :: inside value
  | .function definition => Stmt.storedInAll inside definition.body

namespace Module

/-- The values that a script keeps for later, at any depth. -/
def slots (script : Module) : List Expr := script.items.flatMap (Item.stored Expr.slots)

/-- The first values of variables and the returned values, in order. -/
def stored (script : Module) : List Expr := script.items.flatMap (Item.stored fun _ => [])

end Module

def Module.functions (script : Module) : List Function :=
  script.items.filterMap fun
    | .function definition => some definition
    | _ => none

end Script

/-! ## Composite values -/

/-- Whether scripts share the values of the type. -/
def Ty.isComposite : Ty → Bool
  | .vector .. | .matrix .. | .array .. | .struct .. => true
  | _ => false

lemma Ty.isComposite_of_fieldType {base : Ty} {name : String} (notVector : base.isVector = false)
    (typed : Expr.fieldType base name = .ok ty) : base.isComposite := by
  rw [Expr.fieldType, if_neg (by simp [notVector])] at typed
  cases base with
  | struct => rfl
  | _ => cases typed

lemma Ty.shape_of_isComposite {shape : Shape} (composite : ty.isComposite)
    (shaped : ty.shape? = some shape) : shape ≠ .number ∧ shape ≠ .boolean := by
  cases ty with
  | vector size kind =>
    cases kind <;> cases shaped
    simp
  | matrix cols rows =>
    rw [Ty.shape?] at shaped
    split at shaped <;> cases shaped
    simp
  | array base size =>
    obtain ⟨_, -, rfl⟩ := Option.map_eq_some_iff.mp shaped
    simp
  | struct =>
    cases shaped
    simp
  | _ => cases composite

namespace Script

variable {node : ShaderAlgebra.Expr} {j : Expr} {args : List ShaderAlgebra.Expr}
  {values : Unit → Lowered (List Expr)}

/-- A copy of a composite value is new. -/
lemma isStorage_copy {shape : Shape} (composite : ty.isComposite) (shaped : ty.shape? = some shape)
    (value : Expr) : (Expr.copy shape value).isStorage = false := by
  obtain ⟨notNumber, notBoolean⟩ := Ty.shape_of_isComposite composite shaped
  cases shape with
  | vector | matrix | aggregate => rfl
  | number => exact absurd rfl notNumber
  | boolean => exact absurd rfl notBoolean

lemma isStorage_arithmetic {op : BinaryOp} {left right : ShapedExpr}
    (made : arithmetic node op left right = .ok j) : j.isStorage = false := by
  simp only [arithmetic, vectorWithNumber, numberWithVector, matrixWithNumber, matrices] at made
  split at made
  case h_10 => cases made
  all_goals split at made <;> cases made <;> rfl

lemma isStorage_binaryOf {op : BinaryOp} {left right : ShapedExpr}
    (made : binaryOf node op left right = .ok j) : j.isStorage = false := by
  cases op with
  | logicalAnd | logicalOr | less | lessEqual | greater | greaterEqual =>
    cases made
    rfl
  | equal | notEqual =>
    simp only [binaryOf, equality] at made
    split at made <;> cases made <;> rfl
  | add | subtract | multiply | divide | modulo => exact isStorage_arithmetic made

lemma isStorage_unaryOf (op : UnaryOp) (operand : ShapedExpr) :
    (unaryOf op operand).isStorage = false := by
  unfold unaryOf
  split <;> rfl

/-- A vector or a matrix is constructed anew. -/
lemma isStorage_construct (composite : ty.isComposite)
    (made : construct node ty args values = .ok j) : j.isStorage = false := by
  simp only [construct, bind_eq_ok] at made
  obtain ⟨shapes, -, es, -, rest⟩ := made
  cases shaped : ty.shape? with
  | none =>
    rw [shaped] at rest
    cases rest
  | some shape =>
    obtain ⟨notNumber, notBoolean⟩ := Ty.shape_of_isComposite composite shaped
    rw [shaped] at rest
    cases shape with
    | vector size =>
      cases rest
      unfold constructVector
      split
      · rfl
      · split <;> rfl
      · split <;> rfl
    | matrix size =>
      cases rest
      unfold constructMatrix
      split
      · rfl
      · split <;> rfl
      · split <;> rfl
    | aggregate => cases rest
    | number => exact absurd rfl notNumber
    | boolean => exact absurd rfl notBoolean

lemma isStorage_builtinCall {builtin : Builtin}
    (made : builtinCall node builtin args values = .ok j) : j.isStorage = false := by
  simp only [builtinCall, bind_eq_ok] at made
  obtain ⟨shapes, -, rest⟩ := made
  split at rest
  · cases rest
  · obtain ⟨es, -, rest⟩ := bind_eq_ok.mp rest
    split at rest <;> cases rest <;> rfl

end Script

namespace Expr

def isAssign : Expr → Bool
  | .assign .. => true
  | _ => false

/-- Whether the tree assigns nothing. -/
def IsAssignFree (e : Expr) : Prop := ∀ s ∈ e.nodes, s.isAssign = false

instance (e : Expr) : Decidable e.IsAssignFree :=
  inferInstanceAs (Decidable (∀ s ∈ e.nodes, s.isAssign = false))

lemma IsAssignFree.within {s e : Expr} (free : e.IsAssignFree) (inside : Within s e) :
    s.IsAssignFree :=
  fun node mem => free node (mem_nodes.mpr ((mem_nodes.mp mem).trans inside))

section Shared

variable {site : Site} {names : Names} {structs : StructTable} {e : Expr} {j : Script.Expr}
  {ty : Ty}

/-- A composite value is stored as a copy, unless its script is new. -/
lemma isStorage_stored {plain : Script.Expr} (composite : e.ty.isComposite)
    (new : e.isLvalue = false ∨ e.isFresh → plain.isStorage = false)
    (stored : e.stored plain = .ok j) : j.isStorage = false := by
  unfold Expr.stored at stored
  split at stored
  · next isNew =>
    cases stored
    exact new (by simpa using isNew)
  · simp only [bind_eq_ok, pure_eq_ok, shape_eq_ok] at stored
    obtain ⟨shape, shaped, rfl⟩ := stored
    exact Script.isStorage_copy composite shaped plain

/-- The script of a field of composite type is new, unless it is a member of what is not. -/
lemma isStorage_field {base : Expr} {name : String} (typed : fieldType base.ty name = .ok ty)
    (composite : ty.isComposite)
    (shared : (Expr.field base name ty).isLvalue = false ∨ (Expr.field base name ty).isFresh)
    (new : base.ty.isVector = false → base.ty.isComposite → base.isLvalue = false ∨ base.isFresh →
      ∀ j, base.lower structs = .ok j → j.isStorage = false)
    (lowered : (Expr.field base name ty).lower structs = .ok j) : j.isStorage = false := by
  simp only [lower, bind_eq_ok] at lowered
  obtain ⟨_, -, object, loweredBase, rest⟩ := lowered
  cases isVector : base.ty.isVector with
  | true =>
    rw [fieldType, if_pos isVector] at typed
    obtain ⟨swizzle, parsed, selected⟩ := bind_eq_ok.mp typed
    simp only [isVector, if_true, parsed, pure_eq_ok] at rest
    subst rest
    unfold Script.readSwizzle
    split
    · next component single =>
      -- One component is a scalar, which is not composite.
      obtain ⟨_, kind, -, -, rfl⟩ := Swizzle.resultType_eq_ok.mp selected
      simp only [Swizzle.length, single] at composite
      cases composite
    · rfl
  | false =>
    simp only [isVector, Bool.false_eq_true, if_false, pure_eq_ok] at rest
    subst rest
    have notSwizzle : (Expr.field base name ty).swizzle? = none := by simp [swizzle?, isVector]
    refine new isVector (Ty.isComposite_of_fieldType isVector typed) (.inl ?_) object loweredBase
    simpa [isLvalue, isFresh, isVector, notSwizzle] using shared

/-- The script of an element of composite type is new, unless it is an element of what is not. -/
lemma isStorage_index {base pos : Expr} (typed : base.ty.element? = some ty)
    (composite : ty.isComposite)
    (shared : (Expr.index base pos ty).isLvalue = false ∨ (Expr.index base pos ty).isFresh)
    (new : base.ty.isMatrix = false → base.ty.isComposite → base.isLvalue = false ∨ base.isFresh →
      ∀ j, base.lower structs = .ok j → j.isStorage = false)
    (lowered : (Expr.index base pos ty).lower structs = .ok j) : j.isStorage = false := by
  simp only [lower, bind_eq_ok, shape_eq_ok] at lowered
  obtain ⟨_, -, object, loweredBase, i, -, shape, shaped, rest⟩ := lowered
  simp only [isLvalue, isFresh] at shared
  split at rest
  · cases rest
    rfl
  · next notMatrix =>
    cases rest
    cases isBase : base.ty with
    | array element size =>
      rw [isBase] at shared
      exact new (by rw [isBase]; rfl) (by rw [isBase]; rfl)
        (.inl (by simpa [Ty.isMatrix] using shared)) object loweredBase
    | vector =>
      rw [isBase] at typed
      cases typed
      cases composite
    | matrix cols rows =>
      rw [isBase, Ty.shape?] at shaped
      split at shaped <;> cases shaped
      exact absurd rfl (notMatrix _)
    | _ =>
      rw [isBase] at typed
      cases typed

/-- The script of a call of composite type is new. -/
lemma isStorage_call {function : String} {args : List Expr}
    (fits : site.Fits (.call function args ty)) (composite : ty.isComposite)
    (lowered : (Expr.call function args ty).lower structs = .ok j) : j.isStorage = false := by
  simp only [lower, bind_eq_ok] at lowered
  obtain ⟨_, -, rest⟩ := lowered
  split at rest
  · next constructor =>
    obtain ⟨rfl, -⟩ := fits.constructor constructor
    exact Script.isStorage_construct composite rest
  · split at rest
    · exact Script.isStorage_builtinCall rest
    · have declared (loweredAll :
          (do return .callOf (Script.mangle function) (← lowerAll structs args))
            = Except.ok j) : j.isStorage = false := by
        simp only [bind_eq_ok, pure_eq_ok] at loweredAll
        obtain ⟨_, -, rfl⟩ := loweredAll
        rfl
      split at rest
      · split at rest
        · simp only [bind_eq_ok, pure_eq_ok] at rest
          obtain ⟨_, -, rfl⟩ := rest
          rfl
        · exact declared rest
      · exact declared rest

section

variable (annotated : e.IsAnnotatedUnder site names) (free : e.IsAssignFree)
  (composite : e.ty.isComposite = true)

include annotated free composite

/-- The script of a composite value that is read anew is new. -/
lemma isStorage_lower (unshared : e.isLvalue = false ∨ e.isFresh)
    (lowered : e.lower structs = .ok j) : j.isStorage = false := by
  induction e using Expr.induction generalizing j with
  | node e ih =>
    have new (part : Expr) (mem : part ∈ e.children) (compositePart : part.ty.isComposite)
        (unsharedPart : part.isLvalue = false ∨ part.isFresh) (j : Script.Expr)
        (loweredPart : part.lower structs = .ok j) : j.isStorage = false :=
      ih part mem (annotated.part mem) (free.within (.part mem .root)) compositePart unsharedPart
        loweredPart
    have fits := annotated e .root
    cases e with
    | literal value ty =>
      obtain rfl : ty = .scalar value.kind := fits
      cases composite
    | ident name ty => simp [isLvalue, isFresh] at unshared
    | field base name ty =>
      exact isStorage_field fits composite unshared (fun _ => new base mem_base) lowered
    | index base pos ty =>
      exact isStorage_index fits.2 composite unshared (fun _ => new base mem_indexed) lowered
    | unary op operand ty =>
      simp only [lower, bind_eq_ok, pure_eq_ok] at lowered
      obtain ⟨_, -, value, -, shape, -, rfl⟩ := lowered
      exact Script.isStorage_unaryOf op _
    | binary op left right ty =>
      simp only [lower, bind_eq_ok] at lowered
      obtain ⟨_, -, _, -, _, -, _, -, _, -, made⟩ := lowered
      exact Script.isStorage_binaryOf made
    | call function args ty => exact isStorage_call fits composite lowered
    | conditional test accept reject ty =>
      obtain ⟨-, same, rfl⟩ : test.ty = Ty.bool ∧ accept.ty = reject.ty ∧ ty = accept.ty := fits
      have compositeAccept : accept.ty.isComposite := composite
      have compositeReject : reject.ty.isComposite := same ▸ compositeAccept
      simp only [lower, bind_eq_ok, pure_eq_ok] at lowered
      obtain ⟨_, -, _, -, a, loweredAccept, accepted, storedAccept, r, loweredReject, rejected,
        storedReject, rfl⟩ := lowered
      have newAccept := isStorage_stored compositeAccept (fun unshared =>
        new accept mem_accept compositeAccept unshared a loweredAccept) storedAccept
      have newReject := isStorage_stored compositeReject (fun unshared =>
        new reject mem_reject compositeReject unshared r loweredReject) storedReject
      simp [Script.Expr.isStorage, newAccept, newReject]
    | assign => cases free _ (mem_nodes.mpr .root)

lemma isStorage_lowerValue (lowered : e.lowerValue structs = .ok j) : j.isStorage = false := by
  obtain ⟨plain, isPlain, stored⟩ := bind_eq_ok.mp lowered
  exact isStorage_stored composite
    (fun unshared => isStorage_lower annotated free composite unshared isPlain) stored

end

/-- What an expression keeps is no storage, if it has assignments at its root only. -/
lemma isStorage_of_keeps (annotated : e.IsAnnotatedUnder site names)
    (free : ∀ part ∈ e.children, part.IsAssignFree) {value : Expr} (keeps : e.Keeps value)
    (composite : value.ty.isComposite) (lowered : value.lowerValue structs = .ok j) :
    j.isStorage = false := by
  obtain ⟨s, inside, own⟩ := keeps
  have part (mem : value ∈ s.children) : j.isStorage = false := by
    have inner : Within value e := .trans (.part mem .root) inside
    refine isStorage_lowerValue (fun node below => annotated node (below.trans inner)) ?_ composite
      lowered
    cases inside with
    | root => exact free value mem
    | part isPart below => exact (free _ isPart).within (.trans (.part mem .root) below)
  cases own with
  | accept => exact part mem_accept
  | reject => exact part mem_reject
  | member isArgument => exact part isArgument
  | assigned => exact part mem_value
  | computed isResult =>
    obtain ⟨ty, -, rfl⟩ := binaryOf_eq_ok.mp isResult
    obtain ⟨plain, isPlain, stored⟩ := bind_eq_ok.mp lowered
    cases stored
    simp only [lower, bind_eq_ok] at isPlain
    obtain ⟨_, -, _, -, _, -, _, -, _, -, made⟩ := isPlain
    exact Script.isStorage_binaryOf made
  | flag => cases composite

end Shared

end Expr

end ShaderAlgebra
