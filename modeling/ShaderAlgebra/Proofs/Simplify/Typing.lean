import ShaderAlgebra.Proofs.Simplify.Passes
import ShaderAlgebra.Proofs.Simplify.Rewrites
import ShaderAlgebra.Proofs.Typing.Annotated

/-!
# Simplification keeps annotations right

A simplified tree is annotated exactly as inference would annotate it, and its root has the type it
had. Both follow change by change: a result is made of annotated subtrees by the same builders that
inference uses, so it is annotated (`MadeOf.forall_within`), and the changes that are accepted keep
the type of the root (`ty_of_apply`).

A node is also held to what its place asks of it. Only its type and whether it denotes storage
matter there, and rules never touch a node that denotes storage.
-/

namespace ShaderAlgebra

open ShaderAlgebra.Expr

namespace Expr

variable {site : Site} {e : Expr}

/-! ## Results are annotated -/

lemma ofLiteral_isAnnotated (site : Site) (val : Literal) : (ofLiteral val).IsAnnotated site :=
  within_leaf rfl rfl

lemma kind_ofDouble (kind : Kind) (val : Double) : (Literal.ofDouble kind val).kind = kind := by
  cases kind <;> rfl

lemma ofName?_text_vector (size : Dim) (kind : Kind) :
    Ty.ofName? (Ty.vector size kind).text = some (.vector size kind) := by
  cases size <;> cases kind <;> rfl

lemma ofName?_text_matrix (cols rows : Dim) :
    Ty.ofName? (Ty.matrix cols rows).text = some (.matrix cols rows) := by
  cases cols <;> cases rows <;> rfl

/-- A constructor with one scalar argument is annotated. -/
lemma filled_fits {ty : Ty} {val : Literal} (named : Ty.ofName? ty.text = some ty)
    (shp : ty.isVector ∨ ty.isMatrix) : site.Fits (.call ty.text [ofLiteral val] ty) := by
  simp only [Site.Fits, Site.callType_eq_ok, named]
  refine ⟨?_, trivial⟩
  cases ty <;> simp_all [Ty.isVector, Ty.isMatrix] <;>
    simp [Ty.construct, Ty.componentCount?, Ty.totalComponents?, Ty.constructsFromOne, ofLiteral, ty]

/-- A constant is a literal, or a vector or matrix made of one literal. -/
lemma constant?_form {ty : Ty} {val : Double} (found : constant? ty val = some e) :
    ∃ kind, (ty = .scalar kind ∧ e = ofLiteral (.ofDouble kind val))
      ∨ ((ty.isVector ∨ ty.isMatrix) ∧ Ty.ofName? ty.text = some ty
        ∧ e = .call ty.text [ofLiteral (.ofDouble kind val)] ty) := by
  unfold constant? at found
  split at found
  · next kind =>
    split at found <;> cases found
    exact ⟨kind, .inl ⟨rfl, rfl⟩⟩
  · next size kind =>
    split at found <;> cases found
    exact ⟨kind, .inr ⟨.inl rfl, ofName?_text_vector size kind, rfl⟩⟩
  · next cols rows =>
    cases found
    exact ⟨.float, .inr ⟨.inr rfl, ofName?_text_matrix cols rows, rfl⟩⟩
  · cases found

lemma constant?_isAnnotated {ty : Ty} {val : Double} (found : constant? ty val = some e) :
    e.IsAnnotated site ∧ e.ty = ty := by
  obtain ⟨kind, ⟨rfl, rfl⟩ | ⟨shp, named, rfl⟩⟩ := constant?_form found
  · exact ⟨ofLiteral_isAnnotated site _, congrArg Ty.scalar (kind_ofDouble kind val)⟩
  · exact ⟨within_single rfl (filled_fits named shp) (ofLiteral_isAnnotated site _), rfl⟩

lemma unaryOf_isAnnotated {op : UnaryOp} {opd : Expr} (ann : opd.IsAnnotated site)
    (built : unaryOf op opd = .ok e) : e.IsAnnotated site := by
  obtain ⟨ty, typed, rfl⟩ := unaryOf_eq_ok.mp built
  exact within_single rfl typed ann

lemma binaryOf_isAnnotated {op : BinaryOp} {left right : Expr}
    (annotatedLeft : left.IsAnnotated site) (annotatedRight : right.IsAnnotated site)
    (built : binaryOf op left right = .ok e) : e.IsAnnotated site := by
  obtain ⟨ty, typed, rfl⟩ := binaryOf_eq_ok.mp built
  exact within_pair rfl typed annotatedLeft annotatedRight

/-- A property that a node has which a change puts in, if the nodes below it have it. Constants are
put in of the types of `typed` trees. -/
structure Endures (typed Q : Expr → Prop) : Prop where
  literal : ∀ {value : Literal}, value.isFinite = true → Q (ofLiteral value)
  opposite : ∀ {x ty}, Q (.literal (.float x) ty) → Q (ofFloat (-x))
  filled : ∀ {s value}, typed s → Ty.ofName? s.ty.text = some s.ty →
    s.ty.isVector = true ∨ s.ty.isMatrix = true → Q (.call s.ty.text [ofLiteral value] s.ty)
  unary : ∀ {op operand ty}, Q operand → Ty.unary? op operand.ty = some ty →
    Q (.unary op operand ty)
  binary : ∀ {op left right ty}, Q left → Q right → Ty.binary? op left.ty right.ty = some ty →
    Q (.binary op left right ty)

variable {given typed Q : Expr → Prop} {new : Expr}

/-- What all nodes of the given trees have, all nodes have of what is made of them. -/
lemma MadeOf.forall_within (made : MadeOf given typed e) (endures : Endures typed Q)
    (all : ∀ s, given s → ∀ t, Within t s → Q t) : ∀ t, Within t e → Q t := by
  induction made with
  | given isGiven => exact all _ isGiven
  | literal finite => exact within_leaf rfl (endures.literal finite)
  | opposite isGiven => exact within_leaf rfl (endures.opposite (all _ isGiven _ .root))
  | @constant s x isTyped found =>
    obtain ⟨val, mem, found⟩ : ∃ val ∈ [.zero false, .unit false],
        constant? s.ty val = some x := by simpa [zero?, one?] using found
    have finite : (val.convert Format.single).isFinite := by
      clear found
      revert val
      decide +kernel
    have lit (kind : Kind) : ∀ t, Within t (ofLiteral (.ofDouble kind val)) → Q t := by
      refine within_leaf rfl (endures.literal ?_)
      cases kind <;> simp [Literal.ofDouble, Literal.isFinite, finite]
    obtain ⟨kind, ⟨-, rfl⟩ | ⟨shp, named, rfl⟩⟩ := constant?_form found
    · exact lit kind
    · exact within_single rfl (endures.filled isTyped named shp) (lit kind)
  | unary _ built ih =>
    obtain ⟨ty, typed, rfl⟩ := unaryOf_eq_ok.mp built
    exact within_single rfl (endures.unary (ih _ .root) typed) ih
  | binary _ _ built ihLeft ihRight =>
    obtain ⟨ty, typed, rfl⟩ := binaryOf_eq_ok.mp built
    exact within_pair rfl (endures.binary (ihLeft _ .root) (ihRight _ .root) typed) ihLeft ihRight

lemma RewritesTo.forall_within (chg : RewritesTo e new) (endures : Endures (Within · e) Q)
    (all : ∀ s, Within s e → Q s) : ∀ s, Within s new → Q s :=
  chg.madeOf.forall_within endures fun _ inner t ins => all t (ins.trans inner.within)

lemma endures_fits (site : Site) (typed : Expr → Prop) : Endures typed site.Fits where
  literal _ := rfl
  opposite _ := rfl
  filled _ := filled_fits
  unary _ typed := typed
  binary _ _ typed := typed

end Expr

/-! ## Accepted changes keep the type -/

namespace Ty

lemma componentWise?_ne_unknown (left right : Ty) : componentWise? left right ≠ some .unknown := by
  cases left <;> cases right <;> simp [componentWise?, scaledMatrix?]

lemma linearProduct?_ne_unknown (left right : Ty) : linearProduct? left right ≠ some .unknown := by
  cases left <;> cases right <;> simp [linearProduct?, vec]

lemma scaledMatrix?_ne_unknown (left right : Ty) : scaledMatrix? left right ≠ some .unknown := by
  cases left <;> cases right <;> simp [scaledMatrix?]

/-- An operator never gives a value of unknown type. -/
lemma binary?_ne_unknown (op : BinaryOp) (left right : Ty) :
    binary? op left right ≠ some .unknown := by
  have wise := componentWise?_ne_unknown left right
  cases op with
  | add | subtract | divide => exact wise
  | multiply =>
    unfold binary?
    have linear := linearProduct?_ne_unknown left right
    have scaled := scaledMatrix?_ne_unknown left right
    simp only
    split
    · cases h : linearProduct? left right <;> simp_all
    · exact wise
  | modulo =>
    simp only [binary?, ne_eq, Option.filter_eq_some_iff, not_and]
    intro h
    exact absurd h wise
  | less | lessEqual | greater | greaterEqual => cases left <;> cases right <;> simp [binary?, bool]
  | equal | notEqual => simp [binary?, bool]
  | logicalAnd | logicalOr =>
    simp only [binary?]
    split <;> simp [bool]

lemma unary?_ne_unknown (op : UnaryOp) (opd : Ty) : unary? op opd ≠ some .unknown := by
  cases op <;> cases opd <;> simp [unary?, kind?, isMatrix, bool]

end Ty

namespace Rule

variable {rule : Rule} {e new : Expr} {site : Site}

lemma apply_eq_some (applied : rule.apply e = some new) :
    rule.candidate? e = some new ∧ (new.ty = e.ty ∨ e.ty = .unknown) := by
  obtain ⟨found, acc⟩ := Option.filter_eq_some_iff.mp applied
  refine ⟨found, ?_⟩
  simp only [accepts, Bool.and_eq_true, Bool.or_eq_true, decide_eq_true_eq] at acc
  exact acc.2

/-- A node that folds to a literal has a known type. -/
lemma ty_ne_unknown_of_literalValue? {val : Literal} (fits : site.Fits e)
    (folded : e.literalValue? = some val) : e.ty ≠ .unknown := by
  intro unk
  cases e with
  | unary op opd ty =>
    obtain rfl : ty = .unknown := unk
    exact Ty.unary?_ne_unknown op opd.ty fits
  | binary op left right ty =>
    obtain rfl : ty = .unknown := unk
    exact Ty.binary?_ne_unknown op left.ty right.ty fits
  | call fn args ty =>
    obtain rfl : ty = .unknown := unk
    obtain ⟨vals, -, called⟩ := Option.bind_eq_some_iff.mp folded
    simp only [Expr.callValue?] at called
    split at called
    · next kind named =>
      simp [Site.Fits, Site.callType_eq_ok, named] at fits
    · cases called
    · obtain ⟨bi, -, called⟩ := Option.bind_eq_some_iff.mp called
      simp [Builtin.onLiterals?] at called
  | _ => simp [Expr.literalValue?] at folded

/-- A change that is accepted at an annotated node keeps its type. -/
lemma ty_of_apply (fits : site.Fits e) (applied : rule.apply e = some new) : new.ty = e.ty := by
  obtain ⟨found, kept | unk⟩ := apply_eq_some applied
  · exact kept
  cases rule with
  | constantFolding =>
    obtain ⟨val, folded, -, -⟩ := fold?_eq_some found
    exact absurd unk (ty_ne_unknown_of_literalValue? fits folded)
  | algebraicIdentities => exact (mem_identityCandidates found).2
  | conditionalElimination =>
    cases chosen?_rewrites found with
    | choose => split <;> simp_all [Site.Fits, Expr.ty]
    | either => exact fits.2.2.symm
    | _ => simp [candidate?, Expr.chosen?] at found
  | reassociation | likeTerms =>
    cases e with
    | binary op left right ty =>
      obtain rfl : ty = .unknown := unk
      exact absurd fits (Ty.binary?_ne_unknown op left.ty right.ty)
    | _ => simp [candidate?, Expr.reassociated?, Expr.collected?] at found

/-- What endures in changes and all nodes have, they have after a change. -/
lemma forall_within_apply {Q : Expr → Prop} (endures : Endures (Within · e) Q)
    (all : ∀ s, Within s e → Q s) (applied : rule.apply e = some new) :
    ∀ s, Within s new → Q s := by
  obtain ⟨found, -⟩ := apply_eq_some applied
  by_cases folding : rule = .constantFolding
  · subst folding
    obtain ⟨val, -, finite, rfl⟩ := fold?_eq_some found
    exact within_leaf rfl (endures.literal finite)
  · exact (candidate?_rewrites folding found).forall_within endures all

/-- No rule applies to a node that denotes storage. -/
lemma apply_of_isLvalue (lvalue : e.isLvalue) : rule.apply e = none := by
  have nothing : rule.candidate? e = none := by
    cases e with
    | ident name ty | field base name ty | index base pos ty => cases rule <;> rfl
    | _ => simp [Expr.isLvalue] at lvalue
  rw [apply, nothing]
  rfl

end Rule

/-! ## Passes and simplification -/

namespace Rules

variable {site : Site} {e : Expr}

/-- What simplification keeps of a tree: annotations that fit, the type of the root, and whether it
denotes storage. -/
def KeepsTyping (site : Site) (e new : Expr) : Prop :=
  e.IsAnnotated site →
    new.IsAnnotated site ∧ new.ty = e.ty ∧ (e.isLvalue = true → new.isLvalue = true)

lemma KeepsTyping.refl (site : Site) (e : Expr) : KeepsTyping site e e := fun ann => ⟨ann, rfl, id⟩

lemma KeepsTyping.trans {a b c : Expr} (fst : KeepsTyping site a b)
    (snd : KeepsTyping site b c) : KeepsTyping site a c := by
  intro ann
  obtain ⟨annotatedB, typeB, storageB⟩ := fst ann
  obtain ⟨annotatedC, typeC, storageC⟩ := snd annotatedB
  exact ⟨annotatedC, typeC.trans typeB, fun lvalue => storageC (storageB lvalue)⟩

/-- Storage stays storage when its parts keep their types and stay storage. -/
lemma isLvalue_mapParts {f : Expr → Expr} (tys : ∀ part ∈ e.children, (f part).ty = part.ty)
    (stor : ∀ part ∈ e.children, part.isLvalue → (f part).isLvalue)
    (lvalue : e.isLvalue) : (e.mapParts f).isLvalue := by
  cases e with
  | ident name ty => rfl
  | field base name ty => simp_all [Expr.isLvalue, Expr.mapParts, Expr.children, Expr.swizzle?]
  | index base pos ty => simp_all [Expr.isLvalue, Expr.mapParts, Expr.children]
  | _ => simp [Expr.isLvalue] at lvalue

lemma KeepsTyping.mapParts {f : Expr → Expr}
    (parts : ∀ part ∈ e.children, KeepsTyping site part (f part)) :
    KeepsTyping site e (e.mapParts f) := by
  intro ann
  have kept : ∀ part ∈ e.children, _ := fun part mem => parts part mem (ann.part mem)
  have tys : ∀ part ∈ e.children, (f part).ty = part.ty := fun part mem => (kept part mem).2.1
  have stor : ∀ part ∈ e.children, part.isLvalue → (f part).isLvalue :=
    fun part mem => (kept part mem).2.2
  refine ⟨isAnnotated_iff.mpr ⟨?_, ?_⟩, ty_mapParts f e, isLvalue_mapParts tys stor⟩
  · refine ann.fits.mapParts (.refl site) ?_ tys (.inr stor)
    rintro name ty rfl
    exact ann.fits
  · intro part mem
    rw [children_mapParts] at mem
    obtain ⟨old, ins, rfl⟩ := List.mem_map.mp mem
    exact (kept old ins).1

lemma KeepsTyping.apply {rule : Rule} {new : Expr} (applied : rule.apply e = some new) :
    KeepsTyping site e new := by
  intro ann
  refine ⟨Rule.forall_within_apply (endures_fits site _) ann applied,
    Rule.ty_of_apply ann.fits applied, fun lvalue => ?_⟩
  rw [Rule.apply_of_isLvalue lvalue] at applied
  cases applied

/-- What endures in changes and can be seen at the root alone, all nodes keep in passes. -/
lemma forall_within_passes {Q : Expr → Prop} (root : ∀ {e f}, Q e → Q (e.mapParts f))
    (endures : ∀ typed, Endures typed Q) (rules : Rules) (all : ∀ s, Within s e → Q s)
    (passes : Nat) : ∀ s, Within s (rules.step^[passes] e) → Q s := by
  refine iterate_related (R := fun e new => (∀ s, Within s e → Q s) → ∀ s, Within s new → Q s)
    (fun _ => id) (fun fst snd => snd ∘ fst) (fun kept all => ?_)
    (fun _ _ _ _ applied all => Rule.forall_within_apply (endures _) all applied) passes e all
  obtain ⟨own, parts⟩ := forall_within_iff.mp all
  refine forall_within_iff.mpr ⟨root own, ?_⟩
  rw [children_mapParts, List.forall_mem_map]
  exact fun part mem => kept part mem (parts part mem)

/-- Simplification with any rules keeps annotations right. -/
lemma simplify_keepsTyping (rules : Rules) (site : Site) (e : Expr) :
    KeepsTyping site e (rules.simplify e).result :=
  simplify_related (KeepsTyping.refl site) KeepsTyping.trans KeepsTyping.mapParts
    (fun _ _ => KeepsTyping.apply) e

/-- A type that is known stays, also in trees that are not annotated. -/
lemma ty_simplify (rules : Rules) (known : e.ty ≠ .unknown) :
    (rules.simplify e).result.ty = e.ty := by
  refine simplify_related (R := fun e new => e.ty ≠ .unknown → new.ty = e.ty) (fun _ _ => rfl)
    (fun fst snd known => ?_) (fun _ _ => ty_mapParts _ _) (fun rule _ _ _ applied known => ?_)
    e known
  · rw [snd (by rwa [fst known]), fst known]
  · exact (Rule.apply_eq_some applied).2.resolve_right known

/-- A simplified tree is one that inference gives back, at the type of the tree before. -/
theorem infer_simplify {site : Site} {e t : Expr} (inferred : e.infer site = .ok t) :
    (simplify Rule.all t).result.infer site = .ok (simplify Rule.all t).result
      ∧ (simplify Rule.all t).result.ty = t.ty := by
  obtain ⟨annotated, sameType, -⟩ :=
    simplify_keepsTyping Rule.all site t (Expr.isAnnotated_of_infer inferred)
  exact ⟨Expr.infer_eq_self_iff.mpr annotated, sameType⟩

/-- The site of an `inout` function over a vector variable. -/
def inoutSite : Site :=
  let symbols := (SymbolTable.empty.declare "v" (Ty.vec .three)).2
  ⟨symbols.declareFunction "bump" ⟨[⟨"target", Ty.float, .inout⟩], Ty.float⟩, none⟩

/-- `bump(v.x) * 1.0 + (true ? 2 : 3)`, whose argument must stay storage and whose sum must stay a
`float` although the branch taken is an `int`. -/
theorem infer_simplify_inout :
    let v := Expr.ident "v" (Ty.vec .three)
    let call := Expr.call "bump" [.field v "x" Ty.float] Ty.float
    let product := Expr.binary .multiply call (.ofFloat (Floating.unit false)) Ty.float
    let choice := Expr.conditional (.ofBool true) (.ofInt 2) (.ofInt 3) Ty.int
    let t := Expr.binary .add product choice Ty.float
    t.infer inoutSite = .ok t
      ∧ (simplify Rule.all t).result.infer inoutSite = .ok (simplify Rule.all t).result
      ∧ (simplify Rule.all t).result.ty = Ty.float := by
  intro v call product choice t
  have inferred : t.infer inoutSite = .ok t := by rfl
  exact ⟨inferred, infer_simplify inferred⟩

end Rules

end ShaderAlgebra
