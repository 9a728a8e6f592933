import ShaderAlgebra.Proofs.Outcome
import ShaderAlgebra.Simplify.Pass

/-!
# Walks over statements

What a walk over a larger tree may do is a relation between the tree before and after it and the
expressions that were replaced, in source order, each with what came into its place
(`Stmt.Replaces`). All else of the two trees is the same. A walk with a visitor that has a state
hands it the first expressions of the list in turn, and puts what comes back in their places
(`Visits.traverse`). The simplification of functions and shaders is such a walk.
-/

namespace ShaderAlgebra

/-- Expressions in source order, each with what replaces it. -/
abbrev Replacements := List (Expr × Expr)

/-! ## Replaced expressions -/

section Replaced

variable {α : Type} (R : α → Replacements → α → Prop)

/-- What may be missing is replaced if it is there. -/
inductive InSlot : Option α → Replacements → Option α → Prop
  | missing : InSlot none [] none
  | present {a b pairs} : R a pairs b → InSlot (some a) pairs (some b)

/-- Members of a list are replaced one after the other. -/
inductive InTurn : List α → Replacements → List α → Prop
  | nil : InTurn [] [] []
  | cons {a b as bs first rest} :
    R a first b → InTurn as rest bs → InTurn (a :: as) (first ++ rest) (b :: bs)

end Replaced

/-- An expression is replaced as a whole. -/
inductive Expr.Replaces : Expr → Replacements → Expr → Prop
  | whole {a b} : Replaces a [(a, b)] b

/-- The first statement becomes the second when the expressions that it and the statements inside of
it own are replaced, in source order. -/
inductive Stmt.Replaces : Stmt → Replacements → Stmt → Prop
  | declare {name ty init pairs init'} :
    InSlot Expr.Replaces init pairs init' →
      Replaces (.declare name ty init) pairs (.declare name ty init')
  | eval {e pairs e'} : e.Replaces pairs e' → Replaces (.eval e) pairs (.eval e')
  | ret {value pairs value'} :
    InSlot Expr.Replaces value pairs value' → Replaces (.ret value) pairs (.ret value')
  | branch {condition accept reject inCondition inAccept inReject condition' accept' reject'} :
    condition.Replaces inCondition condition' → InTurn Replaces accept inAccept accept' →
      InTurn Replaces reject inReject reject' →
      Replaces (.branch condition accept reject) (inCondition ++ (inAccept ++ inReject))
        (.branch condition' accept' reject')
  | loop {init condition step body inInit inCondition inStep inBody init' condition' step' body'} :
    InSlot Replaces init inInit init' → InSlot Expr.Replaces condition inCondition condition' →
      InSlot Expr.Replaces step inStep step' → InTurn Replaces body inBody body' →
      Replaces (.loop init condition step body) (inInit ++ (inCondition ++ (inStep ++ inBody)))
        (.loop init' condition' step' body')
  | block {body pairs body'} :
    InTurn Replaces body pairs body' → Replaces (.block body) pairs (.block body')
  | leave : Replaces .leave [] .leave
  | next : Replaces .next [] .next

/-- The same for a function: only its body changes. -/
inductive FunctionDef.Replaces (f : FunctionDef) : Replacements → FunctionDef → Prop
  | body {pairs body} :
    InTurn Stmt.Replaces f.body pairs body → f.Replaces pairs { f with body := body }

/-- The same for an item. A struct owns no expression, and a global at most its initializer. -/
inductive Item.Replaces : Item → Replacements → Item → Prop
  | struct {declaration} : Replaces (.struct declaration) [] (.struct declaration)
  | global {g : GlobalVar} {pairs init} :
    InSlot Expr.Replaces g.init pairs init →
      Replaces (.global g) pairs (.global { g with init := init })
  | function {f g : FunctionDef} {pairs} :
    f.Replaces pairs g → Replaces (.function f) pairs (.function g)

/-! ## Walks that replace -/

/-- From every state, the walk makes replacements that are allowed, and it ends as the visitor does
that is handed the replaced expressions in turn. -/
def Visits {σ α : Type} (visit : Expr → StateM σ Expr) (walk : StateM σ α)
    (allowed : Replacements → α → Prop) : Prop :=
  ∀ state, ∃ pairs, allowed pairs (walk state).1
    ∧ (pairs.map Prod.fst).mapM visit state = (pairs.map Prod.snd, (walk state).2)

namespace Visits

variable {σ α β : Type} {visit : Expr → StateM σ Expr} {walk : StateM σ α}
  {P : Replacements → α → Prop} {Q : Replacements → β → Prop}

lemma pure {a : α} (allowed : P [] a) : Visits visit (Pure.pure a) P := fun _ => ⟨[], allowed, rfl⟩

lemma one (e : Expr) : Visits visit (visit e) e.Replaces :=
  fun state => ⟨[(e, (visit e state).1)], .whole, rfl⟩

lemma map (fst : Visits visit walk P) {f : α → β}
    (build : ∀ {pairs a}, P pairs a → Q pairs (f a)) : Visits visit (do return f (← walk)) Q := by
  intro state
  obtain ⟨pairs, allowed, ends⟩ := fst state
  exact ⟨pairs, build allowed, ends⟩

/-- One walk after another makes the replacements of the first, and then those of the second. -/
lemma bind (fst : Visits visit walk P) {next : α → StateM σ β}
    (snd : ∀ pairs a, P pairs a → Visits visit (next a) fun more => Q (pairs ++ more)) :
    Visits visit (walk >>= next) Q := by
  intro state
  obtain ⟨pairs, allowed, ends⟩ := fst state
  obtain ⟨more, allowed', ends'⟩ := snd pairs _ allowed (walk state).2
  refine ⟨pairs ++ more, allowed', ?_⟩
  have inTurn (xs ys : List Expr) : (xs ++ ys).mapM visit state =
        let vals := xs.mapM visit state
        let others := ys.mapM visit vals.2
        (vals.1 ++ others.1, others.2) := by
    rw [List.mapM_append]
    rfl
  rw [List.map_append, List.map_append, inTurn, ends]
  simp only [ends']
  rfl

lemma option (e : Option Expr) : Visits visit (e.mapM visit) (InSlot Expr.Replaces e) := by
  cases e with
  | none => exact pure .missing
  | some e => exact (one e).map .present

mutual

lemma traverse : (s : Stmt) → Visits visit (s.traverse visit) s.Replaces
  | .declare _ _ init => (option init).map .declare
  | .eval e => (one e).map .eval
  | .ret val => (option val).map .ret
  | .branch cond acc rej =>
    (one cond).bind fun _ _ inCond =>
      (traverseAll acc).bind fun _ _ inAcc =>
        (traverseAll rej).map fun inRej => .branch inCond inAcc inRej
  | .loop init cond step body =>
    (traverseOption init).bind fun _ _ inInit =>
      (option cond).bind fun _ _ inCond =>
        (option step).bind fun _ _ inStep =>
          (traverseAll body).map fun inBody => .loop inInit inCond inStep inBody
  | .block body => (traverseAll body).map .block
  | .leave => pure .leave
  | .next => pure .next

lemma traverseOption :
    (s : Option Stmt) → Visits visit (Stmt.traverseOption visit s) (InSlot Stmt.Replaces s)
  | none => pure .missing
  | some s => (traverse s).map .present

lemma traverseAll :
    (ss : List Stmt) → Visits visit (Stmt.traverseAll visit ss) (InTurn Stmt.Replaces ss)
  | [] => pure .nil
  | s :: ss => (traverse s).bind fun _ _ fst => (traverseAll ss).map (.cons fst)

end

end Visits

namespace Rules

variable {rules : Rules}

lemma visits_visitFunction (f : FunctionDef) :
    Visits rules.visit (rules.visitFunction f) f.Replaces :=
  (Visits.traverseAll f.body).map .body

lemma visits_visitItem (item : Item) : Visits rules.visit (rules.visitItem item) item.Replaces := by
  cases item with
  | struct => exact .pure .struct
  | global g => exact (Visits.option g.init).map .global
  | function f => exact (visits_visitFunction f).map .function

lemma visits_visitItems (rules : Rules) (items : List Item) :
    Visits rules.visit (rules.visitItems items) (InTurn Item.Replaces items) := by
  induction items with
  | nil => exact .pure .nil
  | cons item items ih =>
    exact (visits_visitItem item).bind fun _ _ fst => ih.map (.cons fst)

/-- A walk that visits with the rules replaces expressions by what they are simplified to. -/
lemma simplified_of_visits {α : Type} {walk : StateM Progress α} {allowed : Replacements → α → Prop}
    (visits : Visits rules.visit walk allowed) :
    ∃ pairs, allowed pairs (collect walk).result
      ∧ ∀ pair ∈ pairs, pair.2 = (rules.simplify pair.1).result := by
  have vals (es : List Expr) (progress : Progress) :
      (es.mapM rules.visit progress).1 = es.map fun e => (rules.simplify e).result := by
    induction es generalizing progress with
    | nil => rfl
    | cons e es ih =>
      rw [List.mapM_cons, List.map_cons, ← ih (rules.visit e progress).2]
      rfl
  obtain ⟨pairs, made, ends⟩ := visits ⟨false, []⟩
  refine ⟨pairs, made, List.map_inj_left.mp ?_⟩
  have same := congrArg Prod.fst ends
  rwa [vals, List.map_map, eq_comm] at same

/-- A walk visits expressions in source order, and keeps all else. -/
theorem traverse_replaces {σ : Type} (visit : Expr → StateM σ Expr) (state : σ) (s : Stmt)
    (f : FunctionDef) (shader : Shader) :
    (∃ pairs, s.Replaces pairs (s.traverse visit state).1
        ∧ (pairs.map Prod.fst).mapM visit state = (pairs.map Prod.snd, (s.traverse visit state).2))
      ∧ (∃ pairs, f.Replaces pairs (simplifyFunction Rule.all f).result
        ∧ ∀ pair ∈ pairs, pair.2 = (simplify Rule.all pair.1).result)
      ∧ ∃ pairs,
        InTurn Item.Replaces shader.items pairs (simplifyShader Rule.all shader).result.items
        ∧ ∀ pair ∈ pairs, pair.2 = (simplify Rule.all pair.1).result := by
  refine ⟨Visits.traverse s state, simplified_of_visits (visits_visitFunction f), ?_⟩
  have whole := (visits_visitItems Rule.all shader.items).map (f := Shader.mk)
    (Q := fun pairs result => InTurn Item.Replaces shader.items pairs result.items) id
  exact simplified_of_visits whole

end Rules

end ShaderAlgebra
