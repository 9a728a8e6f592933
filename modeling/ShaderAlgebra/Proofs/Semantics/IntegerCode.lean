import ShaderAlgebra.Proofs.Semantics.Wrapping
import ShaderAlgebra.Proofs.Typing.Builtins

/-!
# Integer code

Integer code calculates with integers and truth values only. `Expr.IsIntegral` says so form by form,
with the kind of the value; `Expr.isIntegerNode` says so of one node, and annotated trees of such
nodes are integer code (`exists_isIntegral`).

In arithmetic that wraps around the value of integer code is an integer or a truth value, so it is
written as a literal. `Expr.AmountsTo` says which one. It is opened and put together operator by
operator, and proofs about integer code do not evaluate.
-/

namespace ShaderAlgebra

open Value List

variable {function : String}

/-- The built-in functions on integers, with the number of their arguments. -/
def Builtin.integerArity? : Builtin → Option Nat
  | .abs | .sign => some 1
  | .min | .max => some 2
  | .clamp => some 3
  | _ => none

/-- An arithmetic operator on integers and truth values takes integers and gives one. -/
lemma Ty.binary?_arithmetic {op : BinaryOp} {kind res : Kind} (arith : op.isCompoundAssignable)
    (oth : kind ≠ .float) (typed : binary? op (.scalar kind) (.scalar kind) = some (.scalar res)) :
    kind = .int ∧ res = .int := by
  cases kind with
  | float => exact absurd rfl oth
  | bool =>
    cases op with
    | add | subtract | multiply | divide | modulo => cases typed
    | _ => cases arith
  | int =>
    cases op with
    | add | subtract | multiply | divide | modulo =>
      cases typed
      exact ⟨rfl, rfl⟩
    | _ => cases arith

/-- The type of an operator on integers is that of its value. -/
lemma Ty.binary?_int {op : BinaryOp} {ty : Ty} (u : Undefined) (x y : Int32)
    (typed : binary? op Ty.int Ty.int = some ty) : ty = .scalar (u.onInts op x y).kind := by
  cases op <;> cases typed <;> rfl

namespace Expr

variable {kind : Kind} {e operand : Expr}

/-! ## Integer code -/

/-- Trees that calculate with integers and truth values only, with the kind of their value. -/
inductive IsIntegral : Kind → Expr → Prop
  | literal {value : Literal} : value.kind ≠ .float → IsIntegral value.kind (ofLiteral value)
  | ident {kind : Kind} (name : String) :
    kind ≠ .float → IsIntegral kind (.ident name (.scalar kind))
  | unary {op : UnaryOp} {operand : Expr} {kind : Kind} :
    IsIntegral kind operand → Ty.unary? op (.scalar kind) = some (.scalar kind) →
      IsIntegral kind (.unary op operand (.scalar kind))
  | binary {op : BinaryOp} {left right : Expr} {kind result : Kind} :
    IsIntegral kind left → IsIntegral kind right →
      Ty.binary? op (.scalar kind) (.scalar kind) = some (.scalar result) →
      IsIntegral result (.binary op left right (.scalar result))
  | conditional {condition accept reject : Expr} {kind : Kind} :
    IsIntegral .bool condition → IsIntegral kind accept → IsIntegral kind reject →
      IsIntegral kind (.conditional condition accept reject (.scalar kind))
  | convert {source target : Kind} {argument : Expr} : target ≠ .float →
    IsIntegral source argument →
      IsIntegral target (.call (Ty.scalar target).text [argument] (.scalar target))
  | builtin {builtin : Builtin} {arguments : List Expr} :
    builtin.integerArity? = some arguments.length →
      (∀ argument ∈ arguments, IsIntegral .int argument) →
      IsIntegral .int (.call builtin.name arguments Ty.int)

namespace IsIntegral

variable {kind : Kind} {e : Expr}

lemma ty (intg : IsIntegral kind e) : e.ty = .scalar kind := by
  cases intg <;> rfl

variable {ty : Ty}

lemma ne_float (intg : IsIntegral kind e) : kind ≠ .float := by
  induction intg with
  | literal oth | ident _ oth => exact oth
  | unary _ _ ih => exact ih
  | @binary op _ _ _ _ _ _ typed ih _ =>
    cases arith : op.isCompoundAssignable with
    | true => simp [Ty.binary?_arithmetic arith ih typed]
    | false =>
      have isBool := Ty.binary?_eq_bool arith typed
      rintro rfl
      cases isBool
  | conditional _ _ _ _ ih _ => exact ih
  | convert oth _ _ => exact oth
  | builtin => decide

lemma of_unary {op : UnaryOp} (intg : IsIntegral kind (.unary op operand ty)) :
    IsIntegral kind operand ∧ Ty.unary? op (.scalar kind) = some (.scalar kind) := by
  cases intg with
  | unary inner typed => exact ⟨inner, typed⟩

lemma of_binary {op : BinaryOp} {left right : Expr}
    (intg : IsIntegral kind (.binary op left right ty)) :
    ∃ own, IsIntegral own left ∧ IsIntegral own right
      ∧ Ty.binary? op (.scalar own) (.scalar own) = some (.scalar kind) := by
  cases intg with
  | binary left right typed => exact ⟨_, left, right, typed⟩

lemma of_conditional {cond acc rej : Expr} (intg : IsIntegral kind (.conditional cond acc rej ty)) :
    IsIntegral .bool cond ∧ IsIntegral kind acc ∧ IsIntegral kind rej := by
  cases intg with
  | conditional cond acc rej => exact ⟨cond, acc, rej⟩

lemma part {p : Expr} (intg : IsIntegral kind e) (mem : p ∈ e.children) :
    ∃ own, IsIntegral own p := by
  cases intg with
  | literal | ident => cases mem
  | unary operand =>
    obtain rfl := mem_singleton.mp mem
    exact ⟨_, operand⟩
  | binary left right =>
    rcases mem_pair.mp mem with rfl | rfl
    · exact ⟨_, left⟩
    · exact ⟨_, right⟩
  | conditional cond acc rej =>
    rcases (by simpa [children] using mem : p = _ ∨ p = _ ∨ p = _) with rfl | rfl | rfl
    · exact ⟨_, cond⟩
    · exact ⟨_, acc⟩
    · exact ⟨_, rej⟩
  | convert _ arg =>
    obtain rfl := mem_singleton.mp mem
    exact ⟨_, arg⟩
  | builtin _ args => exact ⟨_, args p mem⟩

/-- There is no power in integer code. -/
lemma ne_pow {args : List Expr} (intg : IsIntegral kind (.call function args ty)) :
    Builtin.ofName? function ≠ some .pow := by
  cases intg with
  | convert => cases kind <;> decide
  | builtin arity =>
    rw [Builtin.ofName?_name]
    rintro ⟨⟩
    cases arity

/-- Parts may be exchanged for others of the same kind. -/
lemma mapParts {f : Expr → Expr} (intg : IsIntegral kind e)
    (parts : ∀ part ∈ e.children, ∀ own, IsIntegral own part → IsIntegral own (f part)) :
    IsIntegral kind (e.mapParts f) := by
  cases intg with
  | literal oth => exact .literal oth
  | ident name oth => exact .ident name oth
  | unary operand typed => exact .unary (parts _ mem_operand _ operand) typed
  | binary left right typed =>
    exact .binary (parts _ mem_left _ left) (parts _ mem_right _ right) typed
  | conditional cond acc rej =>
    exact .conditional (parts _ mem_condition _ cond)
      (parts _ mem_accept _ acc) (parts _ mem_reject _ rej)
  | convert oth arg => exact .convert oth (parts _ mem_first _ arg)
  | builtin arity args =>
    refine .builtin (by simpa using arity) ?_
    simp only [mem_map, forall_exists_index, and_imp, forall_apply_eq_imp_iff₂]
    exact fun part mem => parts part mem _ (args part mem)

end IsIntegral

/-- Integer code agrees with no tree but itself. -/
lemma IsIntegral.eq_of_agrees {oth : Expr} (intg : IsIntegral kind e)
    (agree : e.agrees oth) : e = oth := by
  induction e using Expr.induction generalizing kind oth with
  | node e ih =>
    have same {part part' : Expr} (mem : part ∈ e.children) (agree : part.agrees part') :
        part = part' := by
      obtain ⟨own, inner⟩ := intg.part mem
      exact ih part mem inner agree
    unfold agrees at agree
    split at agree <;> simp only [Bool.and_eq_true, beq_iff_eq, Bool.false_eq_true] at agree
    · next value _ own _ =>
      obtain ⟨agree, rfl⟩ := agree
      cases intg with
      | literal notFloat => cases value <;> cases own <;> simp_all [Literal.agrees, Literal.kind]
    · rw [agree.1, agree.2]
    · cases intg
    · cases intg
    · rw [agree.1.1, same mem_operand agree.1.2, agree.2]
    · rw [agree.1.1.1, same mem_left agree.1.1.2, same mem_right agree.1.2, agree.2]
    · have args := map_eq_of_agreeAll (F := id) agree.1.2 fun _ mem _ => same mem
      rw [map_id, map_id] at args
      rw [agree.1.1, args, agree.2]
    · rw [same mem_condition agree.1.1.1, same mem_accept agree.1.1.2, same mem_reject agree.1.2,
        agree.2]
    · cases intg

/-! ## Values -/

variable {u : Undefined} {I : Interpretation (.wrapping u)}

lemma ofName?_text_scalar (kind : Kind) :
    Ty.ofName? (Ty.scalar kind).text = some (.scalar kind) := by
  cases kind <;> rfl

lemma IsIntegral.ty_eval (intg : IsIntegral kind e) (I : Interpretation (.wrapping u)) :
    (e.eval I).ty = .scalar kind := by
  induction intg with
  | literal => exact ty_ofLiteral _
  | ident => rfl
  | unary _ typed ih =>
    exact ty_unary (ih ▸ typed)
  | binary _ _ typed ihLeft ihRight =>
    exact ty_binary (by rw [ihLeft, ihRight, typed])
  | conditional _ _ _ _ ihA ihR =>
    rw [eval]
    split
    · exact ihA
    · exact ihR
  | convert =>
    rw [eval, Interpretation.call, ofName?_text_scalar]
    exact ty_construct rfl
  | builtin =>
    rw [eval, Interpretation.call, Builtin.not_type]
    rfl

/-- Integer code that has the value of a literal. -/
structure AmountsTo (I : Interpretation (.wrapping u)) (e : Expr) (value : Literal) : Prop where
  integral : IsIntegral value.kind e
  eval_eq : e.eval I = .ofLiteral value

/-- Integer code has a value. -/
lemma IsIntegral.exists_amountsTo (intg : IsIntegral kind e)
    (I : Interpretation (.wrapping u)) : ∃ value, value.kind = kind ∧ AmountsTo I e value := by
  have typed := intg.ty_eval I
  generalize known : e.eval I = v at typed
  obtain ⟨ty, data⟩ := v
  obtain rfl : ty = .scalar kind := typed
  cases kind with
  | bool => exact ⟨.bool data, rfl, intg, known⟩
  | int => exact ⟨.int data, rfl, intg, known⟩
  | float => exact absurd rfl intg.ne_float

lemma exists_amountsTo_int (intg : IsIntegral .int e) (I : Interpretation (.wrapping u)) :
    ∃ x, AmountsTo I e (.int x) := by
  obtain ⟨value, isInt, amt⟩ := intg.exists_amountsTo I
  cases value with
  | int x => exact ⟨x, amt⟩
  | _ => cases isInt

lemma exists_amountsTo_bool (intg : IsIntegral .bool e) (I : Interpretation (.wrapping u)) :
    ∃ b, AmountsTo I e (.bool b) := by
  obtain ⟨value, isBool, amt⟩ := intg.exists_amountsTo I
  cases value with
  | bool b => exact ⟨b, amt⟩
  | _ => cases isBool

namespace AmountsTo

variable {e left right new : Expr} {value : Literal} {x y : Int32} {ty : Ty} {op : BinaryOp}

lemma unique {oth : Literal} (fst : AmountsTo I e value) (snd : AmountsTo I e oth) : value = oth :=
  ofLiteral_injective (fst.eval_eq.symm.trans snd.eval_eq)

/-- What a literal amounts. -/
lemma literal?_eq {own : Literal} (amt : AmountsTo I e value)
    (lit : e.literal? = some own) : own = value := by
  cases e with
  | literal held ty =>
    obtain rfl : held = own := by simpa [literal?] using lit
    exact ofLiteral_injective amt.eval_eq
  | _ => cases lit

lemma ofLiteral (oth : value.kind ≠ .float) : AmountsTo I (ofLiteral value) value :=
  ⟨.literal oth, rfl⟩

lemma of_eq (amt : AmountsTo I e (.int x)) (same : x = y) : AmountsTo I e (.int y) := same ▸ amt

/-! ### Operators -/

lemma of_negate (amt : AmountsTo I (.unary .negate operand ty) value) :
    ∃ x, AmountsTo I operand (.int x) ∧ value = .int (-x) := by
  obtain ⟨intg, typed⟩ := amt.integral.of_unary
  obtain ⟨own, sameKind, inner⟩ := intg.exists_amountsTo I
  cases own with
  | int x =>
    refine ⟨x, inner, ofLiteral_injective (u := u) ?_⟩
    rw [← amt.eval_eq, eval, inner.eval_eq, negate_int]
  | bool b =>
    rw [← sameKind] at typed
    cases typed
  | float f => exact absurd rfl inner.integral.ne_float

lemma of_not (amt : AmountsTo I (.unary .not operand ty) value) :
    ∃ b, AmountsTo I operand (.bool b) ∧ value = .bool !b := by
  obtain ⟨intg, typed⟩ := amt.integral.of_unary
  obtain ⟨own, sameKind, inner⟩ := intg.exists_amountsTo I
  cases own with
  | bool b =>
    refine ⟨b, inner, ofLiteral_injective (u := u) ?_⟩
    rw [← amt.eval_eq, eval, inner.eval_eq, not_bool]
  | int x =>
    rw [← sameKind] at typed
    cases typed
  | float f => exact absurd rfl inner.integral.ne_float

/-- The operands of an operator are both integers or both truth values. -/
lemma of_binary (amt : AmountsTo I (.binary op left right ty) value) :
    (∃ x y, AmountsTo I left (.int x) ∧ AmountsTo I right (.int y) ∧ value = u.onInts op x y)
      ∨ ∃ a b, AmountsTo I left (.bool a) ∧ AmountsTo I right (.bool b)
        ∧ value = .onBools op a b := by
  obtain ⟨own, intgL, intgR, typed⟩ := amt.integral.of_binary
  cases own with
  | int =>
    obtain ⟨x, dx⟩ := exists_amountsTo_int intgL I
    obtain ⟨y, dy⟩ := exists_amountsTo_int intgR I
    refine .inl ⟨x, y, dx, dy, ofLiteral_injective (u := u) ?_⟩
    rw [← amt.eval_eq, eval, dx.eval_eq, dy.eval_eq, binary_int typed]
  | bool =>
    obtain ⟨a, da⟩ := exists_amountsTo_bool intgL I
    obtain ⟨b, db⟩ := exists_amountsTo_bool intgR I
    refine .inr ⟨a, b, da, db, ofLiteral_injective (u := u) ?_⟩
    rw [← amt.eval_eq, eval, da.eval_eq, db.eval_eq, binary_bool typed]
  | float => exact absurd rfl intgL.ne_float

/-- The operands of arithmetic are integers. -/
lemma of_arithmetic (arith : op.isCompoundAssignable)
    (amt : AmountsTo I (.binary op left right ty) value) :
    ∃ x y, AmountsTo I left (.int x) ∧ AmountsTo I right (.int y) ∧ value = u.onInts op x y := by
  rcases amt.of_binary with ints | ⟨a, b, da, _, _⟩
  · exact ints
  · obtain ⟨own, intgL, _, typed⟩ := amt.integral.of_binary
    obtain ⟨rfl, _⟩ := Ty.binary?_arithmetic arith intgL.ne_float typed
    cases da.integral.ty.symm.trans intgL.ty

lemma unaryOf (amt : AmountsTo I e (.int x)) (built : unaryOf .negate e = .ok new) :
    AmountsTo I new (.int (-x)) := by
  obtain ⟨ty, typed, rfl⟩ := unaryOf_eq_ok.mp built
  rw [amt.integral.ty] at typed
  cases typed
  refine ⟨.unary amt.integral rfl, ?_⟩
  rw [eval, amt.eval_eq, negate_int]

lemma binaryOf (fst : AmountsTo I left (.int x)) (snd : AmountsTo I right (.int y))
    (built : binaryOf op left right = .ok new) : AmountsTo I new (u.onInts op x y) := by
  obtain ⟨ty, typed, rfl⟩ := binaryOf_eq_ok.mp built
  rw [fst.integral.ty, snd.integral.ty] at typed
  obtain rfl := Ty.binary?_int u x y typed
  refine ⟨.binary fst.integral snd.integral typed, ?_⟩
  rw [eval, fst.eval_eq, snd.eval_eq, binary_int typed]

lemma of_conditional {cond acc rej : Expr}
    (amt : AmountsTo I (.conditional cond acc rej ty) value) :
    ∃ b : Bool, AmountsTo I cond (.bool b) ∧ AmountsTo I (if b then acc else rej) value := by
  obtain ⟨intg, integralAccept, integralReject⟩ := amt.integral.of_conditional
  obtain ⟨b, chosen⟩ := exists_amountsTo_bool intg I
  have value := amt.eval_eq
  rw [eval, chosen.eval_eq] at value
  refine ⟨b, chosen, ?_⟩
  cases b with
  | true => exact ⟨integralAccept, value⟩
  | false => exact ⟨integralReject, value⟩
end AmountsTo

end Expr

/-! ## Whole trees -/

/-- An operator takes two integers or two truth values, never one of each. -/
lemma Ty.binary?_sameKind {op : BinaryOp} {a b : Kind} {ty : Ty} (notFloatA : a ≠ .float)
    (notFloatB : b ≠ .float) (typed : binary? op (.scalar a) (.scalar b) = some ty) : a = b := by
  cases a with
  | float => exact absurd rfl notFloatA
  | bool =>
    cases b with
    | float => exact absurd rfl notFloatB
    | bool => rfl
    | int => cases op <;> cases typed
  | int =>
    cases b with
    | float => exact absurd rfl notFloatB
    | bool => cases op <;> cases typed
    | int => rfl

/-- The built-in functions on integers take no truth values. -/
lemma Builtin.resolve_integers {bi : Builtin} {tys : List Ty} {ty : Ty} {arity : Nat}
    (known : bi.integerArity? = some arity) (intg : ∀ t ∈ tys, t = Ty.int ∨ t = Ty.bool)
    (res : bi.resolve tys = .ok ty) :
    tys.length = arity ∧ (∀ t ∈ tys, t = Ty.int) ∧ ty = Ty.int := by
  obtain ⟨s, form, cnt⟩ : ∃ s, bi.signatures = [s] ∧ s.parameters.length = arity := by
    cases bi <;> cases known <;> exact ⟨_, rfl, rfl⟩
  have len : tys.length = arity :=
    (Signature.resolve?_eq_some.mp ((resolve_eq_ok_of_form form).mp res)).1.trans cnt
  refine ⟨len, ?_⟩
  clear form cnt
  cases bi with
  | abs | sign =>
    obtain rfl := Option.some.inj known
    match tys, len with
    | [a], _ =>
      rcases intg a (by simp) with rfl | rfl
      · exact ⟨by simp, (Except.ok.inj res).symm⟩
      · cases res
  | min | max =>
    obtain rfl := Option.some.inj known
    match tys, len with
    | [a, b], _ =>
      rcases intg a (by simp) with rfl | rfl <;> rcases intg b (by simp) with rfl | rfl
      · exact ⟨by simp, (Except.ok.inj res).symm⟩
      all_goals cases res
  | clamp =>
    obtain rfl := Option.some.inj known
    match tys, len with
    | [a, b, c], _ =>
      rcases intg a (by simp) with rfl | rfl <;> rcases intg b (by simp) with rfl | rfl <;>
        rcases intg c (by simp) with rfl | rfl
      · exact ⟨by simp, (Except.ok.inj res).symm⟩
      all_goals cases res
  | _ => cases known

namespace Expr

/-- The functions of integer code: conversions, and built-in functions on integers. -/
def integerFunctions : List String := ["int", "bool", "abs", "sign", "min", "max", "clamp"]

/-- Whether a node may stand in integer code: its value is an integer or a truth value, and it is a
literal, a variable, an operator, a conditional or a call of one of the functions of integer code.
-/
def isIntegerNode (e : Expr) : Bool :=
  (e.ty = Ty.int || e.ty = Ty.bool) &&
    match e with
    | .literal .. | .ident .. | .unary .. | .binary .. | .conditional .. => true
    | .call function _ _ => integerFunctions.contains function
    | .field .. | .index .. | .assign .. => false

lemma mem_integerFunctions (mem : function ∈ integerFunctions) :
    (∃ tgt : Kind, tgt ≠ .float ∧ function = (Ty.scalar tgt).text)
      ∨ ∃ bi arity, Builtin.integerArity? bi = some arity ∧ function = bi.name := by
  simp only [integerFunctions, mem_cons, not_mem_nil, or_false] at mem
  rcases mem with rfl | rfl | rfl | rfl | rfl | rfl | rfl
  · exact .inl ⟨.int, by decide, rfl⟩
  · exact .inl ⟨.bool, by decide, rfl⟩
  · exact .inr ⟨.abs, 1, rfl, rfl⟩
  · exact .inr ⟨.sign, 1, rfl, rfl⟩
  · exact .inr ⟨.min, 2, rfl, rfl⟩
  · exact .inr ⟨.max, 2, rfl, rfl⟩
  · exact .inr ⟨.clamp, 3, rfl, rfl⟩

/-- A call of a function of integer code on integer code. -/
lemma isIntegral_call {site : Site} {args : List Expr} {kind : Kind}
    (fits : site.Fits (.call function args (.scalar kind))) (mem : function ∈ integerFunctions)
    (parts : ∀ arg ∈ args, ∃ own, IsIntegral own arg) :
    IsIntegral kind (.call function args (.scalar kind)) := by
  rcases mem_integerFunctions mem with ⟨tgt, oth, rfl⟩ | ⟨bi, arity, known, rfl⟩
  · obtain ⟨same, acc⟩ := fits.constructor (ofName?_text_scalar tgt)
    obtain rfl := Ty.scalar.inj same
    obtain ⟨_, _, _, _, takes⟩ := Ty.construct_eq_ok.mp acc
    rcases args with _ | ⟨arg, _ | ⟨snd, rest⟩⟩
    · exact takes.elim
    · obtain ⟨own, intg⟩ := parts arg mem_cons_self
      exact .convert oth intg
    · cases takes.1
  · have res := fits.resolve nofun
    have tys : ∀ t ∈ args.map Expr.ty, t = Ty.int ∨ t = Ty.bool := by
      intro t mem
      obtain ⟨arg, ins, rfl⟩ := mem_map.mp mem
      obtain ⟨own, intg⟩ := parts arg ins
      rw [intg.ty]
      cases own with
      | int => exact .inl rfl
      | bool => exact .inr rfl
      | float => exact absurd rfl intg.ne_float
    obtain ⟨cnt, ints, isInt⟩ := Builtin.resolve_integers known tys res
    obtain rfl := Ty.scalar.inj isInt
    have integers : ∀ arg ∈ args, IsIntegral .int arg := by
      intro arg ins
      obtain ⟨own, intg⟩ := parts arg ins
      have isInt := ints arg.ty (mem_map_of_mem ins)
      obtain rfl := Ty.scalar.inj (intg.ty.symm.trans isInt)
      exact intg
    refine .builtin (known.trans ?_) integers
    rw [← cnt, length_map]

/-- Annotated trees of such nodes are integer code. -/
lemma exists_isIntegral {site : Site} {e : Expr} (ann : e.IsAnnotated site)
    (nodes : ∀ s, Within s e → s.isIntegerNode) : ∃ kind, IsIntegral kind e := by
  induction e using Expr.induction with
  | node e ih =>
    have parts (part : Expr) (mem : part ∈ e.children) : ∃ kind, IsIntegral kind part :=
      ih part mem (ann.part mem) fun s ins => nodes s (.part mem ins)
    have own := nodes e .root
    have fits := ann.fits
    simp only [isIntegerNode, Bool.and_eq_true, Bool.or_eq_true, decide_eq_true_eq] at own
    obtain ⟨typed, form⟩ := own
    obtain ⟨kind, notFloat, isKind⟩ : ∃ kind : Kind, kind ≠ .float ∧ e.ty = .scalar kind := by
      rcases typed with typed | typed
      · exact ⟨.int, by decide, typed⟩
      · exact ⟨.bool, by decide, typed⟩
    refine ⟨kind, ?_⟩
    cases e <;> obtain rfl : _ = Ty.scalar kind := isKind
    case literal value =>
      obtain rfl : kind = value.kind := Ty.scalar.inj fits
      exact .literal notFloat
    case ident name => exact .ident name notFloat
    case unary op operand =>
      obtain ⟨inner, intg⟩ := parts operand mem_operand
      have typed : Ty.unary? op operand.ty = some (.scalar kind) := fits
      rw [intg.ty] at typed
      obtain rfl := Ty.scalar.inj (Ty.unary?_eq typed)
      exact .unary intg typed
    case binary op left right =>
      obtain ⟨a, intgL⟩ := parts left mem_left
      obtain ⟨b, intgR⟩ := parts right mem_right
      have typed : Ty.binary? op left.ty right.ty = some (.scalar kind) := fits
      rw [intgL.ty, intgR.ty] at typed
      obtain rfl := Ty.binary?_sameKind intgL.ne_float intgR.ne_float typed
      exact .binary intgL intgR typed
    case conditional condition accept reject =>
      obtain ⟨isBool, same, isAcc⟩ := fits
      obtain ⟨c, intg⟩ := parts condition mem_condition
      obtain ⟨a, integralAccept⟩ := parts accept mem_accept
      obtain ⟨b, integralReject⟩ := parts reject mem_reject
      obtain rfl := Ty.scalar.inj (intg.ty.symm.trans isBool)
      obtain rfl := Ty.scalar.inj (isAcc.trans integralAccept.ty)
      obtain rfl := Ty.scalar.inj ((isAcc.trans same).trans integralReject.ty)
      exact .conditional intg integralAccept integralReject
    case call function args => exact isIntegral_call fits (by simpa using form) parts
    all_goals cases form

end Expr
end ShaderAlgebra
