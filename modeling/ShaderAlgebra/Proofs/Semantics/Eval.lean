import ShaderAlgebra.Proofs.Expr.Selectors
import ShaderAlgebra.Proofs.Semantics.Value

/-!
# Evaluation

`Expr.eval` is the value of an annotated tree. An `Interpretation` gives what the tree leaves open:
the variables, the functions that are called, and what an index out of range reads. It gives data of
the type that is asked for, so there is no interpretation that is wrongly typed. Constructors of
scalars, vectors and matrices are not left open.

Evaluation does not write. The value of an assignment is the value it stores.

The value of an annotated tree has the type of its root (`eval_ty`), and it is found from the values
of the direct parts (`eval_mapParts`).
-/

namespace ShaderAlgebra

variable {name : String} {op : BinaryOp} {e : Expr} {ty : Ty}

/-- What the names in a tree mean. -/
structure Interpretation (A : Arithmetic) where
  /-- The value of a variable, from its name and type. -/
  read : (name : String) → (ty : Ty) → Val A ty
  /-- The result of a function, from its name, its arguments and the type of the result. -/
  function : (name : String) → (arguments : List (Value A)) → (ty : Ty) → Val A ty
  /-- What is read at an index out of range, from the base, the index and the element type. -/
  beyond : (base index : Value A) → (ty : Ty) → Val A ty

namespace Interpretation

variable {A : Arithmetic} (I : Interpretation A)

/-- The element of a value at an index. -/
def index (base position : Value A) : Value A :=
  match position.place?.bind base.element? with
  | some element => element
  | none =>
    match base.ty.element? with
    | some ty => ⟨ty, I.beyond base position ty⟩
    | none => .undefined

/-- The value of a call. -/
def call (function : String) (arguments : List (Value A)) (ty : Ty) : Value A :=
  match Ty.ofName? function with
  | some constructed => .construct constructed arguments
  | none => ⟨ty, I.function function arguments ty⟩

end Interpretation

namespace Expr

variable {A : Arithmetic}

mutual

/-- The value of a tree. -/
def eval (I : Interpretation A) : Expr → Value A
  | .literal value _ => .ofLiteral value
  | .ident name ty => ⟨ty, I.read name ty⟩
  | .field base name _ => (eval I base).field name
  | .index base position _ => I.index (eval I base) (eval I position)
  | .unary op operand _ => .unary op (eval I operand)
  | .binary op left right _ => .binary op (eval I left) (eval I right)
  | .call function arguments ty => I.call function (evalAll I arguments) ty
  | .conditional condition accept reject _ =>
    if (eval I condition).truth then eval I accept else eval I reject
  | .assign op target value _ => .stored op (eval I target) (eval I value)

def evalAll (I : Interpretation A) : List Expr → List (Value A)
  | [] => []
  | e :: es => eval I e :: evalAll I es

end

lemma evalAll_eq (I : Interpretation A) (es : List Expr) : evalAll I es = es.map (eval I) := by
  induction es with
  | nil => rfl
  | cons e es ih => rw [evalAll, ih, List.map_cons]

/-- A node has the value that its parts give it, also where other variables are read. -/
lemma eval_mapParts_congr {I J : Interpretation A} {f : Expr → Expr}
    (fns : I.function = J.function) (beyond : I.beyond = J.beyond)
    (reads : ∀ name ty, e = .ident name ty → I.read name ty = J.read name ty)
    (parts : ∀ part ∈ e.children, (f part).eval I = part.eval J) :
    (e.mapParts f).eval I = e.eval J := by
  cases e with
  | ident name ty => simp only [mapParts, eval, reads name ty rfl]
  | call fn args ty =>
    have same : (args.map f).map (eval I) = args.map (eval J) := by
      rw [List.map_map]
      exact List.map_congr_left parts
    simp only [mapParts, eval, evalAll_eq, same, Interpretation.call, fns]
  | _ => simp_all [mapParts, eval, children, Interpretation.index]

/-- Parts of equal values may be exchanged. -/
lemma eval_mapParts {I : Interpretation A} {f : Expr → Expr}
    (parts : ∀ part ∈ e.children, (f part).eval I = part.eval I) :
    (e.mapParts f).eval I = e.eval I :=
  eval_mapParts_congr rfl rfl (fun _ _ _ => rfl) parts

end Expr

/-! ## Types of values -/

namespace Ty

variable {left right ty : Ty}

lemma kind?_componentWise? (typed : componentWise? left right = some ty) : ty.kind?.isSome := by
  cases left <;> cases right <;> simp_all [componentWise?, scaledMatrix?] <;> grind [kind?]

lemma kind?_matrixProduct? (typed : linearProduct? left right = some ty
      ∨ scaledMatrix? left right = some ty) : ty.kind?.isSome := by
  cases left <;> cases right <;> simp_all [linearProduct?, scaledMatrix?] <;> grind [kind?, vec]

/-- An arithmetic operator gives a scalar, a vector or a matrix. -/
lemma kind?_binary? (arith : op.isCompoundAssignable)
    (typed : binary? op left right = some ty) : ty.kind?.isSome := by
  cases op with
  | add | subtract | divide => exact kind?_componentWise? typed
  | multiply =>
    simp only [binary?] at typed
    split at typed
    · exact kind?_matrixProduct? ((Option.or_eq_some_iff.mp typed).imp_right And.right)
    · exact kind?_componentWise? typed
  | modulo => exact kind?_componentWise? (Option.filter_eq_some_iff.mp typed).1
  | _ => simp [BinaryOp.isCompoundAssignable] at arith

/-- Every other operator gives a truth value. -/
lemma binary?_eq_bool (oth : op.isCompoundAssignable = false)
    (typed : binary? op left right = some ty) : ty = bool := by
  cases op with
  | add | subtract | multiply | divide | modulo => simp [BinaryOp.isCompoundAssignable] at oth
  | less | lessEqual | greater | greaterEqual => cases left <;> cases right <;> simp_all [binary?]
  | _ =>
    simp only [binary?] at typed
    split at typed <;> simp_all

end Ty

namespace Value

variable {A : Arithmetic} {ty : Ty} {v : Value A}

lemma ty_build {comp : (kind : Kind) → (col row : Nat) → kind.Carrier A}
    (known : ty.kind?.isSome) : (build ty comp).ty = ty := by
  cases ty <;> simp_all [build, Ty.kind?]

lemma ty_ofLiteral (val : Literal) : (ofLiteral val : Value A).ty = .scalar val.kind := by
  cases val <;> rfl

lemma ty_unary {op : UnaryOp} (typed : Ty.unary? op v.ty = some ty) : (unary op v).ty = ty := by
  cases op with
  | negate =>
    simp only [unary, typed]
    refine ty_build ?_
    obtain ⟨rfl, num⟩ := Ty.unary?_eq_some.mp typed
    cases h : v.ty <;> simp_all [Ty.kind?, Ty.isMatrix]
  | not =>
    simp only [unary, typed]
    obtain ⟨rfl, isBool⟩ := Ty.unary?_eq_some.mp typed
    exact isBool.symm

lemma ty_product (v w : Value A) (known : ty.kind?.isSome) : (product ty v w).ty = ty := by
  unfold product
  split <;> exact ty_build known

lemma ty_binary {w : Value A} (typed : Ty.binary? op v.ty w.ty = some ty) :
    (binary op v w).ty = ty := by
  cases op with
  | add | subtract | divide | modulo =>
    simp only [binary, typed]
    exact ty_build (Ty.kind?_binary? rfl typed)
  | multiply =>
    simp only [binary, typed]
    exact ty_product v w (Ty.kind?_binary? rfl typed)
  | _ =>
    simp only [binary, typed]
    exact (Ty.binary?_eq_bool rfl typed).symm

lemma kind?_resultType {s : Swizzle} {base : Ty} (typed : s.resultType base = .ok ty) :
    ty.kind?.isSome := by
  obtain ⟨_, _, -, -, rfl⟩ := Swizzle.resultType_eq_ok.mp typed
  split <;> rfl

lemma ty_memberOf {mems : List (String × Ty)} {x : MemberVals A mems}
    (found : mems.lookup name = some ty) : (memberOf name mems x).ty = ty := by
  induction mems with
  | nil => cases found
  | cons entry mems ih =>
    obtain ⟨own, fst⟩ := entry
    rw [List.lookup_cons] at found
    rw [memberOf]
    split
    · next same =>
      simp only [same] at found
      exact Option.some.inj found
    · next oth =>
      simp only [oth] at found
      exact ih found

lemma ty_field (typed : Expr.fieldType v.ty name = .ok ty) : (v.field name).ty = ty := by
  unfold Expr.fieldType at typed
  unfold field
  split at typed
  · next vec =>
    obtain ⟨s, parsed, sel⟩ := bind_eq_ok.mp typed
    rw [if_pos vec]
    simp only [Swizzle.parse_eq_ok_iff.mp parsed, select, sel]
    exact ty_build (kind?_resultType sel)
  · next notVec =>
    obtain ⟨own, data⟩ := v
    cases own with
    | struct structName mems =>
      split at typed
      · next found =>
        cases typed
        exact ty_memberOf found
      · cases typed
    | _ => simp [Ty.member?] at typed

lemma ty_element? {elt : Value A} {place : Nat} (found : v.element? place = some elt) :
    v.ty.element? = some elt.ty := by
  obtain ⟨own, data⟩ := v
  cases own <;> simp_all only [element?, Ty.element?, reduceCtorEq]
  all_goals
    split at found
    · cases found
      rfl
    · cases found

lemma ty_construct {args : List (Value A)} (known : ty.kind?.isSome) :
    (construct ty args).ty = ty := by
  unfold construct
  repeat' split
  all_goals exact ty_build known

lemma ty_convertTo (conv : v.ty.convertsTo ty) : (v.convertTo ty).ty = ty := by
  unfold convertTo
  split
  · next same => exact same
  · next oth =>
    refine ty_build ?_
    simp only [Ty.convertsTo, oth, decide_false, Bool.false_or] at conv
    split at conv <;> simp_all [Ty.kind?]

end Value

/-- A type constructor that is accepted makes a scalar, a vector or a matrix. -/
lemma Site.kind?_construct {tys : List Ty} (acc : ty.construct tys = .ok ()) : ty.kind?.isSome := by
  unfold Ty.construct at acc
  split at acc
  · cases acc
  · next counted => cases ty <;> simp_all [Ty.componentCount?, Ty.kind?]

/-- The constructor that a call with a type's name means. -/
lemma Site.Fits.constructor {site : Site} {fn : String} {args : List Expr} {named : Ty}
    (fits : site.Fits (.call fn args ty)) (constructor : Ty.ofName? fn = some named) :
    named = ty ∧ named.construct (args.map Expr.ty) = .ok () := by
  simp only [Fits, callType_eq_ok, constructor] at fits
  exact fits.symm

namespace Interpretation

variable {A : Arithmetic} (I : Interpretation A)

lemma ty_index {base pos : Value A} (typed : base.ty.element? = some ty) :
    (I.index base pos).ty = ty := by
  unfold index
  split
  · next elt found =>
    obtain ⟨place, -, ins⟩ := Option.bind_eq_some_iff.mp found
    have same := Value.ty_element? ins
    rw [typed] at same
    exact (Option.some.inj same).symm
  · simp only [typed]

end Interpretation

namespace Value

variable {A : Arithmetic}

/-- What may be assigned is stored at the type of the target. -/
lemma ty_stored {op : Option BinaryOp} {tgt val : Value A}
    (asgn : tgt.ty.assignableFrom op val.ty) : (stored op tgt val).ty = tgt.ty := by
  cases op with
  | none => exact ty_convertTo asgn
  | some op =>
    simp only [Ty.assignableFrom, Bool.and_eq_true, beq_iff_eq] at asgn
    have same := ty_binary asgn.2
    simp [stored, convertTo, same]

end Value

namespace Expr

variable {A : Arithmetic}

/-- The value of an annotated tree has the type of its root. -/
lemma eval_ty (I : Interpretation A) {site : Site} (ann : e.IsAnnotated site) :
    (e.eval I).ty = e.ty := by
  induction e using Expr.induction with
  | node e ih =>
    have fits := ann.fits
    have parts : ∀ part ∈ e.children, (part.eval I).ty = part.ty :=
      fun part mem => ih part mem (ann.part mem)
    cases e with
    | literal val ty =>
      rw [eval, Value.ty_ofLiteral]
      exact Eq.symm fits
    | ident name ty => rfl
    | field base name ty =>
      refine Value.ty_field ?_
      rw [parts base mem_base]
      exact fits
    | index base pos ty =>
      refine I.ty_index ?_
      rw [parts base mem_indexed]
      exact fits.2
    | unary op opd ty =>
      refine Value.ty_unary ?_
      rw [parts opd mem_operand]
      exact fits
    | binary op left right ty =>
      refine Value.ty_binary ?_
      rw [parts left mem_left, parts right mem_right]
      exact fits
    | call fn args ty =>
      rw [eval, Interpretation.call]
      split
      · next named constructor =>
        obtain ⟨rfl, acc⟩ := fits.constructor constructor
        exact Value.ty_construct (Site.kind?_construct acc)
      · rfl
    | conditional cond accept rej ty =>
      obtain ⟨-, same, typed⟩ := fits
      rw [eval]
      split
      · exact (parts accept mem_accept).trans typed.symm
      · exact (parts rej mem_reject).trans (same.symm.trans typed.symm)
    | assign op tgt val ty =>
      obtain ⟨-, asgn, typed⟩ := fits
      have tgt' := parts tgt mem_target
      rw [eval, Value.ty_stored]
      · exact tgt'.trans typed.symm
      · rw [tgt', parts val mem_value]
        exact asgn

end Expr

end ShaderAlgebra
