import ShaderAlgebra.Proofs.Semantics.Exact
import ShaderAlgebra.Proofs.Simplify.Typing

/-!
# Trees on which simplification rests

Simplification that stops before its limit ends on a normal tree: no rule applies to any subtree,
and a second simplification changes nothing. What a normal tree looks like is read off the rules.
Where a rule has a candidate that keeps the type and differs, it applies, so the shapes that have
such a candidate do not occur (`IsTidy`):

* sums and products of scalars and vectors are nested to the left, since the regrouped chain always
  has a type, and always the same one (`binary?_regroup`);
* a literal factor stands in front;
* no condition is a literal.
-/

namespace ShaderAlgebra

/-! ## Types of regrouped chains -/

lemma Kind.unify?_assoc (a b c : Kind) :
    (b.unify? c).bind a.unify? = (a.unify? b).bind (·.unify? c) := by
  cases a <;> cases b <;> cases c <;> rfl

/-- A chain of scalars and vectors has the same type however it is grouped. -/
lemma Ty.binary?_regroup {op : BinaryOp} {a b c inner ty : Ty} (wise : Value.IsComponentWise op)
    (nmA : a.isMatrix = false) (nmB : b.isMatrix = false) (nmC : c.isMatrix = false)
    (right : binary? op b c = some inner) (typed : binary? op a inner = some ty) :
    ∃ left, binary? op a b = some left ∧ binary? op left c = some ty := by
  have nmI := isMatrix_binary? right nmB nmC
  rw [Value.binary?_eq_componentWise? wise nmB nmC] at right
  rw [Value.binary?_eq_componentWise? wise nmA nmI] at typed
  obtain ⟨sizeB, sizeC, kindB, kindC, kind, rfl, rfl, rfl, unified, sizes⟩ :=
    componentWise?_plain right nmB nmC
  obtain ⟨sizeA, size, kindA, kind', res, rfl, same, rfl, unified', sizes'⟩ :=
    componentWise?_plain typed nmA nmI
  obtain ⟨rfl, rfl⟩ := plain_inj same
  obtain ⟨kindLeft, unifiedLeft, unifiedRight⟩ : ∃ k, kindA.unify? kindB = some k
      ∧ k.unify? kindC = some res := by
    rw [← Option.bind_eq_some_iff, ← Kind.unify?_assoc, unified, Option.bind_some, unified']
  refine ⟨plain (sizeA.or sizeB) kindLeft, ?_, ?_⟩
  · rw [Value.binary?_eq_componentWise? wise nmA nmB, componentWise?_plain_eq,
      unifiedLeft]
    cases sizeA <;> cases sizeB <;> simp_all
  · rw [Value.binary?_eq_componentWise? wise (isMatrix_plain _ _) nmC,
      componentWise?_plain_eq, unifiedRight]
    cases sizeA <;> cases sizeB <;> simp_all

namespace Expr

variable {a b e : Expr}

/-! ## Trees that agree -/

lemma nodeCountAll_eq (es : List Expr) : nodeCountAll es = (es.map nodeCount).sum := by
  induction es with
  | nil => rfl
  | cons e es ih => rw [nodeCountAll, ih, List.map_cons, List.sum_cons]

/-- Trees that agree have equally many nodes. -/
lemma nodeCount_eq_of_agrees (agree : a.agrees b) : a.nodeCount = b.nodeCount := by
  induction a using Expr.induction generalizing b with
  | node a ih =>
    cases a <;> cases b <;>
      simp only [agrees, Bool.and_eq_true, Bool.false_eq_true, beq_iff_eq] at agree
    case call =>
      rw [nodeCount, nodeCount, nodeCountAll_eq, nodeCountAll_eq,
        map_eq_of_agreeAll agree.1.2 fun part mem _ => ih part mem]
    all_goals grind [nodeCount, children]

/-! ## Shapes that the rules leave -/

/-- What is left of a node that no rule applies to: a sum or product of scalars and vectors is not
nested to the right and has no literal as its right factor alone, and a condition is not a literal.
-/
def IsTidy : Expr → Prop
  | .binary op left right _ =>
    op = .add ∨ op = .multiply → left.ty.isMatrix = false → right.ty.isMatrix = false →
      (∀ b c ty, right = .binary op b c ty → b.ty.isMatrix = true ∨ c.ty.isMatrix = true)
        ∧ (op = .multiply → right.literal?.isSome = true → left.literal?.isSome = true)
  | .conditional condition _ _ _ => condition.literal? = none
  | _ => True

lemma accepts_of_ty {old new : Expr} (differs : new.agrees old = false) (same : new.ty = old.ty) :
    Rule.accepts old new := by
  simp [Rule.accepts, differs, same]

variable {site : Site} {op : BinaryOp} {left right b c acc rej : Expr} {ty inner : Ty}

lemma combined?_of_typed (typed : Ty.binary? op left.ty right.ty = some ty) :
    combined? op left right = some (.binary op left right ty) :=
  combined?_eq_some.mpr (binaryOf_eq_ok.mpr ⟨ty, typed, rfl⟩)

/-- A product with a literal as its right factor alone is turned round. -/
lemma reassociation_literal (fits : site.Fits (.binary .multiply left right ty))
    (nmL : left.ty.isMatrix = false) (nmR : right.ty.isMatrix = false)
    (litR : right.literal?.isSome) (otherLeft : left.literal? = none) :
    Rule.reassociation.apply (.binary .multiply left right ty) ≠ none := by
  have turned : Ty.binary? .multiply right.ty left.ty = some ty := by
    have typed : Ty.binary? .multiply left.ty right.ty = some ty := fits
    rw [Value.binary?_eq_componentWise? .multiply nmL nmR] at typed
    rw [Value.binary?_eq_componentWise? .multiply nmR nmL]
    obtain ⟨sizeL, sizeR, a, b, kind, isLeft, isRight, rfl, unified, sizes⟩ :=
      Ty.componentWise?_plain typed nmL nmR
    rw [isLeft, isRight, Ty.componentWise?_plain_eq, Kind.unify?_comm, unified]
    cases sizeL <;> cases sizeR <;> simp_all
  have nm := Ty.isMatrix_binary? fits nmL nmR
  have found : (Expr.binary .multiply left right ty).reassociated?
      = some (.binary .multiply right left ty) := by
    simp [reassociated?, nm, nmL, nmR, litR, otherLeft, combined?_of_typed turned]
  have differs : (Expr.binary .multiply right left ty).agrees (.binary .multiply left right ty)
      = false := by
    cases right <;> cases left <;> simp_all [literal?, agrees]
  simp [Rule.apply, Rule.candidate?, found, accepts_of_ty differs rfl]

/-- A chain of scalars and vectors that is nested to the right is nested to the left. -/
lemma reassociation_chain (chained : op = .add ∨ op = .multiply)
    (fits : site.Fits (.binary op left (.binary op b c inner) ty))
    (fitsRight : site.Fits (.binary op b c inner)) (nmL : left.ty.isMatrix = false)
    (nmB : b.ty.isMatrix = false) (nmC : c.ty.isMatrix = false) :
    Rule.reassociation.apply (.binary op left (.binary op b c inner) ty) ≠ none := by
  have nmI := Ty.isMatrix_binary? fitsRight nmB nmC
  have nm := Ty.isMatrix_binary? fits nmL nmI
  obtain ⟨nested, fst, snd⟩ := Ty.binary?_regroup (chained.imp_right (.inr ∘ .inl))
    nmL nmB nmC fitsRight fits
  have found : (Expr.binary op left (.binary op b c inner) ty).reassociated?
      = some (.binary op (.binary op left b nested) c ty) := by
    have out : combined? op (.binary op left b nested) c = some _ := combined?_of_typed snd
    have nmR : (Expr.binary op b c inner).ty.isMatrix = false := nmI
    rcases chained with rfl | rfl <;>
      simp [reassociated?, literal?, nm, nmL, nmR, nmB, nmC, combined?_of_typed fst, out]
  have differs : (Expr.binary op (.binary op left b nested) c ty).agrees
      (.binary op left (.binary op b c inner) ty) = false := by
    rw [Bool.eq_false_iff]
    intro agree
    simp only [agrees, Bool.and_eq_true] at agree
    have counts := nodeCount_eq_of_agrees agree.1.1.2
    simp only [nodeCount] at counts
    omega
  simp [Rule.apply, Rule.candidate?, found, accepts_of_ty differs rfl]

/-- A conditional with a literal condition is its branch. -/
lemma conditionalElimination_literal {cond : Expr} (fits : site.Fits (.conditional cond acc rej ty))
    (fitsCondition : site.Fits cond) (lit : cond.literal? ≠ none) :
    Rule.conditionalElimination.apply (.conditional cond acc rej ty) ≠ none := by
  have differs {branch : Expr} (mem : branch = acc ∨ branch = rej) :
      branch.agrees (.conditional cond acc rej ty) = false := by
    rw [Bool.eq_false_iff]
    intro agree
    have counts := nodeCount_eq_of_agrees agree
    rw [nodeCount] at counts
    rcases mem with rfl | rfl <;> omega
  obtain ⟨isBool, same, rfl⟩ := fits
  cases cond with
  | literal val ty' =>
    obtain rfl : ty' = .scalar val.kind := fitsCondition
    cases val with
    | bool val =>
      cases val with
      | true => simp [Rule.apply, Rule.candidate?, chosen?, accepts_of_ty (differs (.inl rfl)) rfl]
      | false =>
        simp [Rule.apply, Rule.candidate?, chosen?, accepts_of_ty (differs (.inr rfl)) same.symm]
    | _ => cases isBool
  | _ => exact absurd rfl lit

/-- A node of an annotated tree that no rule applies to is tidy. -/
lemma isTidy_of_apply_eq_none (ann : e.IsAnnotated site)
    (quiet : ∀ rule ∈ Rule.all, rule.apply e = none) : e.IsTidy := by
  cases e with
  | binary op left right ty =>
    intro chained nmL nmR
    have rests : Rule.reassociation.apply (.binary op left right ty) = none := quiet _ (by decide)
    constructor
    · rintro b c inner rfl
      by_contra noMatrix
      simp only [not_or, Bool.not_eq_true] at noMatrix
      exact reassociation_chain chained ann.fits (ann.part mem_right).fits nmL
        noMatrix.1 noMatrix.2 rests
    · rintro rfl lit
      by_contra other
      exact reassociation_literal ann.fits nmL nmR lit (by simpa using other) rests
  | conditional cond acc rej ty =>
    by_contra lit
    exact conditionalElimination_literal ann.fits (ann.part mem_condition).fits lit
      (quiet _ (by decide))
  | _ => trivial

end Expr

/-! ## Results of simplification -/

/-- Unless simplification runs into its limit, no rule applies to any node of the result, all nodes
are tidy, and a second run changes nothing. -/
theorem simplify_isNormal {site : Site} {e : Expr} (annotated : e.IsAnnotated site)
    (stopped : Event.noFixedPoint passLimit (Rules.simplify Rule.all e).result.text
      ∉ (Rules.simplify Rule.all e).events) :
    let normal := (Rules.simplify Rule.all e).result
    (∀ s, Expr.Within s normal → (∀ rule ∈ Rule.all, rule.apply s = none) ∧ s.IsTidy)
      ∧ (Rules.simplify Rule.all normal).changed = false
      ∧ (Rules.simplify Rule.all normal).result = normal := by
  intro normal
  rw [Rules.noFixedPoint_mem_simplify_iff] at stopped
  push Not at stopped
  obtain ⟨passes, early, rests⟩ := stopped
  have isNormal : Rules.IsNormal Rule.all normal :=
    (Rules.isNormal_simplify_iff Rule.all e).mpr ⟨passes, early.le, rests⟩
  have annotatedResult : normal.IsAnnotated site :=
    (Rules.simplify_keepsTyping Rule.all site e annotated).1
  refine ⟨fun s inside => ⟨isNormal s inside, ?_⟩, ?_, ?_⟩
  · exact Expr.isTidy_of_apply_eq_none (annotatedResult.within inside) (isNormal s inside)
  · exact (Rules.simplify_changed_eq_false_iff Rule.all normal).mpr isNormal
  · rw [Rules.simplify_result]
    exact Function.iterate_fixed isNormal.step_eq passLimit

/-- `true ? x * (y * 2.0) : y` comes to rest on `2.0 * x * y`. -/
theorem simplify_isNormal_chain :
    let x := Expr.ident "x" Ty.float
    let y := Expr.ident "y" Ty.float
    let inner := Expr.binary .multiply y (.ofFloat Single.two) Ty.float
    let chain := Expr.binary .multiply x inner Ty.float
    let e := Expr.conditional (.ofBool true) chain y Ty.float
    let normal := (Rules.simplify Rule.all e).result
    normal.text = "2.0 * x * y" ∧ (Rules.simplify Rule.all normal).result = normal := by
  intro x y inner chain e normal
  let site : Site :=
    ⟨((SymbolTable.empty.declare "x" Ty.float).2.declare "y" Ty.float).2, none⟩
  have annotated : e.IsAnnotated site := Expr.isAnnotated_of_infer (e := e) (by rfl)
  exact ⟨by decide +kernel, (simplify_isNormal annotated (by decide +kernel)).2.2⟩

end ShaderAlgebra
