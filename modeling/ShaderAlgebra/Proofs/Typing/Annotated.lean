import ShaderAlgebra.Proofs.Expr.Parts
import ShaderAlgebra.Proofs.Outcome
import ShaderAlgebra.Typing.Infer

/-!
# Annotated trees

A tree is annotated when every node carries the type that the annotations of its direct parts
determine. `Site.Fits` is that condition at one node and `Expr.IsAnnotated` is it at all of them.

Inference is compared with it once, node by node: it keeps the head of a node and makes the node fit
(`infer_fits`), and it gives a node that fits back (`infer_self`). So the trees that inference gives
are annotated (`isAnnotated_of_infer`), and the annotated trees are those that it gives back
unchanged (`infer_eq_self_iff`). Proofs about annotated trees work with `Fits` and leave inference
alone.
-/

namespace ShaderAlgebra

open List

/-! ## The nodes that the builders make -/

/-- Numbers are negated and truth values inverted, and the type stays. -/
lemma Ty.unary?_eq_some {op : UnaryOp} {opd ty : Ty} :
    unary? op opd = some ty ↔ opd = ty ∧ match op with
      | .negate => (opd.isMatrix || opd.kind?.any Kind.isNumeric)
      | .not => opd = bool := by
  cases op <;> simp only [unary?, Option.ite_none_right_eq_some, Option.some.injEq, and_comm]

lemma Ty.unary?_eq {op : UnaryOp} {opd ty : Ty} (typed : unary? op opd = some ty) : opd = ty :=
  (unary?_eq_some.mp typed).1

/-- A selector picks components that the vector has, and of one component the result is a scalar. -/
lemma Swizzle.resultType_eq_ok {s : Swizzle} {base ty : Ty} :
    s.resultType base = .ok ty ↔ ∃ size kind, base = .vector size kind
      ∧ (∀ comp ∈ s.pattern, comp.index < size.count)
      ∧ ty = match Dim.ofCount? s.length with
        | some sel => .vector sel kind
        | none => .scalar kind := by
  cases base with
  | vector size kind =>
    simp only [resultType, all_eq_true, decide_eq_true_eq, Ty.vector.injEq, and_assoc,
      exists_and_left, exists_eq_left']
    split
    · next ins =>
      rw [and_iff_right ins]
      cases Dim.ofCount? s.length <;> exact (iff_of_eq (Except.ok.injEq ..)).trans eq_comm
    · next outside => simp only [outside, false_and, reduceCtorEq]
  | _ => simp [resultType]

namespace Expr

variable {e : Expr}

lemma unaryOf_eq_ok {op : UnaryOp} {opd : Expr} : unaryOf op opd = .ok e ↔
      ∃ ty, Ty.unary? op opd.ty = some ty ∧ e = .unary op opd ty := by
  unfold unaryOf Ty.unaryResult
  cases Ty.unary? op opd.ty <;> simp [Except.map, eq_comm]

lemma binaryOf_eq_ok {op : BinaryOp} {left right : Expr} : binaryOf op left right = .ok e ↔
      ∃ ty, Ty.binary? op left.ty right.ty = some ty ∧ e = .binary op left right ty := by
  unfold binaryOf Ty.binaryResult
  cases Ty.binary? op left.ty right.ty <;> simp [Except.map, eq_comm]

lemma fieldOf_eq_ok {base : Expr} {name : String} : fieldOf base name = .ok e ↔
      ∃ ty, fieldType base.ty name = .ok ty ∧ e = .field base name ty := by
  rw [fieldOf, map_eq_ok]
  simp [eq_comm]

lemma indexOf_eq_ok {base pos : Expr} : indexOf base pos = .ok e ↔
      ∃ ty, base.ty.element? = some ty ∧ e = .index base pos ty := by
  unfold indexOf
  cases base.ty.element? <;> simp [eq_comm]

lemma conditionalOf_eq_ok {cond acc rej : Expr} : conditionalOf cond acc rej = .ok e ↔
      acc.ty = rej.ty ∧ e = .conditional cond acc rej acc.ty := by
  unfold conditionalOf
  split <;> simp_all [eq_comm]

end Expr

/-! ## Constructors -/

/-- Whether a constructor takes the arguments, by the number of components it needs and the number
that they have. -/
def Ty.Takes (ty : Ty) (wanted total : Nat) : List Ty → Prop
  | [] => False
  | [x] => constructsFromOne ty x = true ∨ x.isMatrix = false ∧ total = wanted
  | x :: y :: rest =>
    ty.isScalar = false ∧ (x :: y :: rest).any isMatrix = false ∧ total = wanted

lemma Ty.construct_eq_ok {ty : Ty} {xs : List Ty} :
    ty.construct xs = .ok () ↔ ∃ wanted tot, ty.componentCount? = some wanted
      ∧ totalComponents? xs = some tot ∧ ty.Takes wanted tot xs := by
  unfold construct
  cases wanted : ty.componentCount? with
  | none => simp
  | some wanted =>
    cases tot : totalComponents? xs with
    | none => cases xs <;> simp
    | some tot =>
      rcases xs with _ | ⟨x, _ | ⟨y, rest⟩⟩
      · simp [Takes]
      · cases ty with
        | scalar kind => simp [Takes, constructsFromOne]
        | _ => simp [Takes, or_iff_not_imp_left]
      · cases ty <;> simp [Takes, isScalar, and_assoc]

lemma Ty.constructStruct_eq_ok {ty : Ty} {xs : List Ty} :
    ty.constructStruct xs = .ok () ↔ ∃ name mems, ty = .struct name mems ∧ mems.length = xs.length
      ∧ (mems.zip xs).all (fun ((_, member), x) => x.convertsTo member) := by
  cases ty with
  | struct name mems =>
    simp only [constructStruct]
    split <;> simp_all
  | _ => simp [constructStruct]

/-! ## Heads -/

/-- What a node says besides its parts and its annotation. -/
inductive Head where
  | literal (value : Literal)
  | ident (name : String)
  | field (name : String)
  | index
  | unary (op : UnaryOp)
  | binary (op : BinaryOp)
  | call (function : String)
  | conditional
  | assign (op : Option BinaryOp)
deriving DecidableEq, Repr

def Expr.head : Expr → Head
  | .literal value _ => .literal value
  | .ident name _ => .ident name
  | .field _ name _ => .field name
  | .index .. => .index
  | .unary op _ _ => .unary op
  | .binary op _ _ _ => .binary op
  | .call function _ _ => .call function
  | .conditional .. => .conditional
  | .assign op _ _ _ => .assign op

/-! ## Annotated nodes -/

/-- Whether the annotation of the root is the one that its parts determine, their annotations taken
as they are. -/
def Site.Fits (site : Site) : Expr → Prop
  | .literal value ty => ty = .scalar value.kind
  | .ident name ty => site.symbols.lookup name = some ty
  | .field base name ty => Expr.fieldType base.ty name = .ok ty
  | .index base position ty => position.ty = Ty.int ∧ base.ty.element? = some ty
  | .unary op operand ty => Ty.unary? op operand.ty = some ty
  | .binary op left right ty => Ty.binary? op left.ty right.ty = some ty
  | .call function arguments ty =>
    site.callType (.call function arguments ty) function arguments = .ok ty
  | .conditional condition accept reject ty =>
    condition.ty = Ty.bool ∧ accept.ty = reject.ty ∧ ty = accept.ty
  | .assign op target value ty =>
    target.isLvalue = true ∧ target.ty.assignableFrom op value.ty = true ∧ ty = target.ty

/-! ## Replacing the parts of a node -/

namespace Site

variable {site site' : Site} {function : String} {args : List Expr} {ty : Ty} {f : Expr → Expr}
  {ps : List Parameter}

/-- What a call means, and its type then. The node that it stands at is only named in errors. -/
lemma callType_eq_ok {node : Expr} : site.callType node function args = .ok ty ↔
      match Ty.ofName? function, site.symbols.structType? function, Builtin.ofName? function with
      | some named, _, _ => named.construct (args.map Expr.ty) = .ok () ∧ named = ty
      | none, some named, _ => named.constructStruct (args.map Expr.ty) = .ok () ∧ named = ty
      | none, none, some bi => bi.resolve (args.map Expr.ty) = .ok ty
      | none, none, none => ∃ form, site.overloadFor function (args.map Expr.ty) = .ok form
          ∧ unassignable? form.parameters args = none ∧ form.result = ty := by
  unfold callType
  split
  · simp [*, mapError_eq_ok, map_eq_ok, Unique.exists_iff]
  · split
    · simp [*, mapError_eq_ok, map_eq_ok, Unique.exists_iff]
    · split
      · simp [*, mapError_eq_ok]
      · simp only [*, bind_eq_ok, mapError_eq_ok]
        refine exists_congr fun form => and_congr_right fun _ => ?_
        cases unassignable? form.parameters args <;> simp [pure_eq_ok]

/-- The form of a declared function that a call means. Constructors and built-in functions have
none. -/
def declaredForm? (site : Site) (function : String) (types : List Ty) : Option Overload :=
  match Ty.ofName? function, site.symbols.structType? function, Builtin.ofName? function with
  | none, none, none => (site.overloadFor function types).toOption
  | _, _, _ => none

/-- Whether the node itself writes to nothing: it is not an assignment, and not a call of a declared
function that takes an argument other than by value. -/
def WritesNothing (site : Site) : Expr → Prop
  | .assign .. => False
  | .call function arguments _ =>
    ∀ form ∈ site.declaredForm? function (arguments.map Expr.ty),
      ∀ parameter ∈ form.parameters, parameter.passing = .input
  | _ => True

lemma writesNothing_of_type {t : Ty} (named : Ty.ofName? function = some t) :
    site.WritesNothing (.call function args ty) := by
  intro form found
  simp [declaredForm?, named] at found

lemma writesNothing_of_builtin {bi : Builtin} (named : Builtin.ofName? function = some bi) :
    site.WritesNothing (.call function args ty) := by
  intro form found
  unfold declaredForm? at found
  split at found
  · next notBi =>
    rw [named] at notBi
    cases notBi
  · cases found

/-- The sites know the same functions and structs. -/
structure SameDeclarations (site site' : Site) : Prop where
  overloads : site'.symbols.overloads = site.symbols.overloads
  structs : site'.symbols.structs = site.symbols.structs

lemma SameDeclarations.refl (site : Site) : SameDeclarations site site := ⟨rfl, rfl⟩

lemma SameDeclarations.overloadFor (same : SameDeclarations site site') :
    site'.overloadFor = site.overloadFor := by
  funext function types
  rw [Site.overloadFor, Site.overloadFor, same.overloads]

lemma SameDeclarations.structType? (same : SameDeclarations site site') :
    site'.symbols.structType? = site.symbols.structType? := by
  funext name
  simp only [SymbolTable.structType?, same.structs]

lemma unassignable?_of_input (args : List Expr) (input : ∀ param ∈ ps, param.passing = .input) :
    unassignable? ps args = none := by
  induction ps generalizing args with
  | nil => cases args <;> rfl
  | cons param ps ih =>
    cases args with
    | nil => rfl
    | cons arg args =>
      have fst := input param mem_cons_self
      have rest := ih args fun oth mem => input oth (mem_cons_of_mem _ mem)
      simp [unassignable?, fst, rest]

lemma unassignable?_map (stor : ∀ arg ∈ args, arg.isLvalue → (f arg).isLvalue)
    (written : unassignable? ps args = none) : unassignable? ps (args.map f) = none := by
  induction ps generalizing args with
  | nil => cases args <;> rfl
  | cons param ps ih =>
    cases args with
    | nil => rfl
    | cons arg args =>
      simp only [unassignable?, map_cons] at written ⊢
      split at written
      · cases written
      · next fine =>
        have rest := ih (fun oth mem => stor oth (mem_cons_of_mem _ mem)) written
        rw [if_neg (by simp_all), rest]

/-- A call means the same with other arguments of the same types, if those written to denote
storage. -/
lemma callType_map (same : SameDeclarations site site') {node node' : Expr}
    (tys : ∀ arg ∈ args, (f arg).ty = arg.ty)
    (stor : (∀ form ∈ site.declaredForm? function (args.map Expr.ty),
        ∀ param ∈ form.parameters, param.passing = .input)
      ∨ ∀ arg ∈ args, arg.isLvalue → (f arg).isLvalue)
    (typed : site.callType node function args = .ok ty) :
    site'.callType node' function (args.map f) = .ok ty := by
  have sameTypes : (args.map f).map Expr.ty = args.map Expr.ty := by
    rw [map_map]
    exact map_congr_left tys
  rw [callType_eq_ok] at typed ⊢
  simp only [sameTypes, same.structType?, same.overloadFor]
  split at typed
  · exact typed
  · exact typed
  · exact typed
  · next notTy notStruct notBi =>
    obtain ⟨form, found, written, res⟩ := typed
    refine ⟨form, found, ?_, res⟩
    rcases stor with input | kept
    · apply unassignable?_of_input
      refine input form ?_
      simp only [declaredForm?, notTy, notStruct, notBi]
      exact toOption_eq_some.mpr found
    · exact unassignable?_map kept written

/-- A node other than an identifier fits over parts of the same types, if what it writes to still
denotes storage. -/
lemma Fits.mapParts (same : SameDeclarations site site') {e : Expr} (fits : site.Fits e)
    (lookup : ∀ name ty, e = .ident name ty → site'.symbols.lookup name = some ty)
    (tys : ∀ part ∈ e.children, (f part).ty = part.ty)
    (stor : site.WritesNothing e ∨ ∀ part ∈ e.children, part.isLvalue → (f part).isLvalue) :
    site'.Fits (e.mapParts f) := by
  cases e with
  | literal val ty => exact fits
  | ident name ty => exact lookup name ty rfl
  | call function args ty => exact callType_map same tys stor fits
  | assign op tgt val ty =>
    rcases stor with nothing | kept
    · exact nothing.elim
    · simp_all [Fits, Expr.mapParts, Expr.children]
  | _ => simp_all [Fits, Expr.mapParts, Expr.children]

end Site

namespace Expr

variable {site : Site} {e : Expr}

/-- Whether every node of the tree carries the type that its parts determine. -/
def IsAnnotated (site : Site) (e : Expr) : Prop := ∀ s, Within s e → site.Fits s

lemma isAnnotated_iff :
    e.IsAnnotated site ↔ site.Fits e ∧ ∀ part ∈ e.children, part.IsAnnotated site :=
  forall_within_iff

lemma IsAnnotated.fits (ann : e.IsAnnotated site) : site.Fits e := ann e .root

lemma IsAnnotated.part {part : Expr} (ann : e.IsAnnotated site) (mem : part ∈ e.children) :
    part.IsAnnotated site :=
  (isAnnotated_iff.mp ann).2 part mem

lemma IsAnnotated.within {s : Expr} (ann : e.IsAnnotated site) (ins : Within s e) :
    s.IsAnnotated site :=
  fun inner deeper => ann inner (deeper.trans ins)

/-! ## Inference and annotated trees -/

lemma inferAll_eq_ok_iff {es ts : List Expr} :
    inferAll site es = .ok ts ↔ Forall₂ (fun e t => e.infer site = .ok t) es ts :=
  eq_ok_iff_forall₂ (inferAll site) rfl fun _ _ => rfl

/-- A successful inference of a node over its inferred parts. -/
lemma infer_fits {t : Expr} (inf : e.infer site = .ok t) :
    e.head = t.head ∧ Forall₂ (fun part res => part.infer site = .ok res)
      e.children t.children ∧ site.Fits t := by
  cases e with
  | literal val ty =>
    obtain rfl : ofLiteral val = t := by simpa [infer] using inf
    exact ⟨rfl, .nil, rfl⟩
  | ident name ty =>
    rw [infer] at inf
    split at inf
    · next found =>
      cases inf
      exact ⟨rfl, .nil, found⟩
    · cases inf
  | field base name ty =>
    simp only [infer, bind_eq_ok, Site.built, mapError_eq_ok, fieldOf_eq_ok] at inf
    obtain ⟨base', hb, ty', typed, rfl⟩ := inf
    exact ⟨rfl, .cons hb .nil, typed⟩
  | index base pos ty =>
    simp only [infer, bind_eq_ok] at inf
    obtain ⟨base', hb, pos', hp, rest⟩ := inf
    split at rest
    · next int =>
      obtain ⟨ty', typed, rfl⟩ := indexOf_eq_ok.mp (mapError_eq_ok.mp rest)
      exact ⟨rfl, .cons hb (.cons hp .nil), int, typed⟩
    · cases rest
  | unary op opd ty =>
    simp only [infer, bind_eq_ok, Site.built, mapError_eq_ok, unaryOf_eq_ok] at inf
    obtain ⟨opd', ho, ty', typed, rfl⟩ := inf
    exact ⟨rfl, .cons ho .nil, typed⟩
  | binary op left right ty =>
    simp only [infer, bind_eq_ok, Site.built, mapError_eq_ok, binaryOf_eq_ok] at inf
    obtain ⟨left', hl, right', hr, ty', typed, rfl⟩ := inf
    exact ⟨rfl, .cons hl (.cons hr .nil), typed⟩
  | call function args ty =>
    simp only [infer, bind_eq_ok, pure_eq_ok, inferAll_eq_ok_iff] at inf
    obtain ⟨args', ha, ty', typed, rfl⟩ := inf
    exact ⟨rfl, ha, Site.callType_eq_ok.mpr (Site.callType_eq_ok.mp typed)⟩
  | conditional cond acc rej ty =>
    simp only [infer, bind_eq_ok, Site.built, mapError_eq_ok, conditionalOf_eq_ok] at inf
    obtain ⟨cond', hc, _, required, acc', ha, rej', hr, same, rfl⟩ := inf
    refine ⟨rfl, .cons hc (.cons ha (.cons hr .nil)), ?_, same, rfl⟩
    by_contra other
    simp [Site.requireBool, other] at required
  | assign op tgt val ty =>
    simp only [infer, bind_eq_ok] at inf
    obtain ⟨tgt', ht, rest⟩ := inf
    split at rest
    · cases rest
    · next lvalue =>
      simp only [bind_eq_ok] at rest
      obtain ⟨val', hv, rest⟩ := rest
      split at rest
      · next asgn =>
        cases rest
        exact ⟨rfl, .cons ht (.cons hv .nil), by simpa using lvalue, asgn, rfl⟩
      · cases rest

/-- A node that fits, over parts that inference gives back, is given back. -/
lemma infer_self (parts : ∀ part ∈ e.children, part.infer site = .ok part) (fits : site.Fits e) :
    e.infer site = .ok e := by
  cases e with
  | literal val ty =>
    obtain rfl : ty = .scalar val.kind := fits
    rfl
  | ident name ty =>
    have found : site.symbols.lookup name = some ty := fits
    simp only [infer, found]
  | field base name ty =>
    simp only [infer, bind_eq_ok, Site.built, mapError_eq_ok, fieldOf_eq_ok]
    exact ⟨base, parts base mem_base, ty, fits, rfl⟩
  | index base pos ty =>
    simp only [infer, bind_eq_ok]
    refine ⟨base, parts base mem_indexed, pos, parts pos mem_position, ?_⟩
    rw [if_pos fits.1]
    exact mapError_eq_ok.mpr (indexOf_eq_ok.mpr ⟨ty, fits.2, rfl⟩)
  | unary op opd ty =>
    simp only [infer, bind_eq_ok, Site.built, mapError_eq_ok, unaryOf_eq_ok]
    exact ⟨opd, parts opd mem_operand, ty, fits, rfl⟩
  | binary op left right ty =>
    simp only [infer, bind_eq_ok, Site.built, mapError_eq_ok, binaryOf_eq_ok]
    exact ⟨left, parts left mem_left, right, parts right mem_right, ty, fits,
      rfl⟩
  | call function args ty =>
    simp only [infer, bind_eq_ok, pure_eq_ok, inferAll_eq_ok_iff]
    exact ⟨args, forall₂_same.mpr parts, ty, fits, rfl⟩
  | conditional cond acc rej ty =>
    obtain ⟨bool, same, rfl⟩ : cond.ty = Ty.bool ∧ acc.ty = rej.ty ∧ ty = acc.ty := fits
    simp only [infer, bind_eq_ok, Site.built, mapError_eq_ok, conditionalOf_eq_ok]
    refine ⟨cond, parts cond mem_condition, (), ?_, acc,
      parts acc mem_accept, rej, parts rej mem_reject, same, rfl⟩
    simp [Site.requireBool, bool]
  | assign op tgt val ty =>
    obtain ⟨lvalue, asgn, rfl⟩ : tgt.isLvalue ∧ tgt.ty.assignableFrom op val.ty
          ∧ ty = tgt.ty := fits
    simp only [infer, bind_eq_ok]
    refine ⟨tgt, parts tgt mem_target, ?_⟩
    rw [if_neg (by simp [lvalue]), bind_eq_ok]
    refine ⟨val, parts val mem_value, ?_⟩
    rw [if_pos asgn]
    rfl

/-- The trees that inference gives are annotated. -/
lemma isAnnotated_of_infer {t : Expr} (inf : e.infer site = .ok t) : t.IsAnnotated site := by
  induction e using Expr.induction generalizing t with
  | node e ih =>
    obtain ⟨-, parts, fits⟩ := infer_fits inf
    refine isAnnotated_iff.mpr ⟨fits, fun res mem => ?_⟩
    obtain ⟨part, ins, inferredPart⟩ : ∃ part ∈ e.children, part.infer site = .ok res := by
      obtain ⟨i, hi, rfl⟩ := mem_iff_getElem.mp mem
      have hi' : i < e.children.length := parts.length_eq ▸ hi
      exact ⟨e.children[i], getElem_mem hi', parts.get hi' hi⟩
    exact ih part ins inferredPart

/-- The annotated trees are those that inference gives back unchanged. -/
lemma infer_eq_self_iff : e.infer site = .ok e ↔ e.IsAnnotated site := by
  constructor
  · exact isAnnotated_of_infer
  · induction e using Expr.induction with
    | node e ih =>
      intro ann
      exact infer_self (fun part mem => ih part mem (ann.part mem)) ann.fits

end Expr

/-- Every node that writes to nothing has the type that its parts give it. -/
def Expr.IsWellTyped (site : Site) (e : Expr) : Prop :=
  ∀ s, Within s e → site.WritesNothing s → site.Fits s

end ShaderAlgebra
