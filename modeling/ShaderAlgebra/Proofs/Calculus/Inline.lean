import ShaderAlgebra.Proofs.Calculus.Agreement

/-!
# Inlining a body and running it

The expression that a function comes down to has the value that a run of its body returns
(`run_eq_eval_expression`), with each `if` decided as simplification decides its condition
(`FunctionDef.verdicts`).

A statement that is inlined either returns in the run too, or it is passed and the locals agree with
the machine again (`inlineBody_follows`). Assignments have to be whole expression statements and
calls may not write to their arguments (`Stmt.IsPlain`), since an expression is put in as often as
its variable is read. What is inlined keeps its types also where it is not plain, so the statement is
made for both at once (`PutIn`).
-/

namespace ShaderAlgebra

open Logged

variable {e : Expr} {site' site : Site}

/-! ## Plain statements -/

namespace Site

lemma WritesNothing.congr (same : SameDeclarations site site') (nothing : site.WritesNothing e) :
    site'.WritesNothing e := by
  cases e with
  | call fn args ty =>
    have forms : site'.declaredForm? = site.declaredForm? := by
      funext fn types
      simp only [declaredForm?, same.structType?, same.overloadFor]
    simpa only [WritesNothing, forms] using nothing
  | _ => exact nothing

end Site

lemma Expr.IsPure.congr (same : Site.SameDeclarations site site') (pure : e.IsPure site) :
    e.IsPure site' :=
  fun s ins => (pure s ins).congr same

lemma Expr.IsPureStatement.congr (same : Site.SameDeclarations site site')
    (pure : e.IsPureStatement site) : e.IsPureStatement site' := by
  cases e with
  | assign op tgt val ty => exact ⟨pure.1.congr same, pure.2.congr same⟩
  | _ => exact IsPure.congr same pure

namespace Stmt

mutual

/-- Whether the statement assigns in expression statements only, each of them as a whole, and calls
no function that writes to its arguments. -/
def IsPlain (site : Site) : Stmt → Prop
  | .declare _ _ init => ∀ e ∈ init, e.IsPure site
  | .eval e => e.IsPureStatement site
  | .ret value => ∀ e ∈ value, e.IsPure site
  | .branch condition accept reject =>
    condition.IsPure site ∧ AllPlain site accept ∧ AllPlain site reject
  | .loop init condition step body =>
    OptionPlain site init ∧ (∀ e ∈ condition, e.IsPure site) ∧ (∀ e ∈ step, e.IsPureStatement site)
      ∧ AllPlain site body
  | .block body => AllPlain site body
  | .leave => True
  | .next => True

def OptionPlain (site : Site) : Option Stmt → Prop
  | none => True
  | some s => IsPlain site s

def AllPlain (site : Site) : List Stmt → Prop
  | [] => True
  | s :: ss => IsPlain site s ∧ AllPlain site ss

end

mutual

/-- Of a site only the functions and structs count. -/
lemma IsPlain.congr (same : Site.SameDeclarations site site') :
    (s : Stmt) → s.IsPlain site → s.IsPlain site'
  | .declare .., plain => fun e mem => (plain e mem).congr same
  | .eval _, plain => Expr.IsPureStatement.congr same plain
  | .ret _, plain => fun e mem => (plain e mem).congr same
  | .branch _ acc rej, plain =>
    ⟨plain.1.congr same, AllPlain.congr same acc plain.2.1, AllPlain.congr same rej plain.2.2⟩
  | .loop init _ _ body, plain =>
    ⟨OptionPlain.congr same init plain.1, fun e mem => (plain.2.1 e mem).congr same,
      fun e mem => (plain.2.2.1 e mem).congr same, AllPlain.congr same body plain.2.2.2⟩
  | .block body, plain => AllPlain.congr same body plain
  | .leave, _ | .next, _ => trivial

lemma OptionPlain.congr (same : Site.SameDeclarations site site') :
    (s : Option Stmt) → OptionPlain site s → OptionPlain site' s
  | none, _ => trivial
  | some s, plain => IsPlain.congr same s plain

lemma AllPlain.congr (same : Site.SameDeclarations site site') :
    (ss : List Stmt) → AllPlain site ss → AllPlain site' ss
  | [], _ => trivial
  | s :: ss, plain => ⟨IsPlain.congr same s plain.1, AllPlain.congr same ss plain.2⟩

end

end Stmt

/-! ## Verdicts -/

/-- What simplification makes of a condition with its locals put in, if that is a literal. -/
def Expr.verdict? (condition : Expr) (locals : Locals) : Option Bool :=
  match condition.inlineLocals locals with
  | .ok inlined =>
    match (Rules.simplify Rule.all inlined).result.literal? with
    | some (.bool verdict) => some verdict
    | _ => none
  | .error _ => none

namespace Stmt

mutual

/-- The verdicts on the conditions that are met in a statement, in order. -/
def verdicts : Stmt → Locals → List Bool
  | .block body, locals => verdictsAll body locals.openScope
  | .branch condition accept reject, locals =>
    match condition.verdict? locals with
    | some true => true :: verdictsAll accept locals.openScope
    | some false => false :: verdictsAll reject locals.openScope
    | none => []
  | .declare .., _ => []
  | .eval _, _ => []
  | .ret _, _ => []
  | .loop .., _ => []
  | .leave, _ => []
  | .next, _ => []

def verdictsAll : List Stmt → Locals → List Bool
  | [], _ => []
  | s :: ss, locals =>
    verdicts s locals ++
      match (s.inlineBody locals).outcome with
      | .ok (.through locals) => verdictsAll ss locals
      | _ => []

end

end Stmt

/-- The verdicts on the conditions that are met in the body of a function, in order. -/
def FunctionDef.verdicts (f : FunctionDef) : List Bool := Stmt.verdictsAll f.body .empty

/-! ## Statements -/

section Follows

variable {A : Arithmetic} (I : Interpretation A) (entry : Site) (plain : Prop)

/-- A run ends as the inlining says: both return, the one a value that the other's expression stands
for, or both go on in agreement, with the given verdicts left. -/
inductive Follows (result : Ty) (names : List Names) (left : List Bool) : Flow → Ending A → Prop
  | returned {e : Expr} {v : Value A} : PutIn I entry plain e v → e.ty.convertsTo result = true →
      Follows result names left (.returned e) (.returned v)
  | through {locals : Locals} {m : Machine A} : Agrees I entry plain locals names m →
      m.verdicts = left → Follows result names left (.through locals) (.through m)

variable {I entry plain}

lemma Follows.leaveScope {result : Ty} {names around : Names} {more : List Names}
    {left : List Bool} {flow : Flow} {ending : Ending A}
    (follows : Follows I entry plain result (names :: around :: more) left flow ending) :
    Follows I entry plain result (around :: more) left flow.leaveScope ending.leaveScope := by
  cases follows with
  | returned put conv => exact .returned put conv
  | through agrees rest => exact .through agrees.closeScope rest

end Follows

namespace Stmt

section Steps

variable {A : Arithmetic} {I : Interpretation A} {entry : Site} {plain : Prop} {result : Ty}
  {names : Names} {more : List Names} {locals : Locals} {m : Machine A} {flow : Flow}
  {left : List Bool}

lemma outcome_inlineBody_branch {cond : Expr} {acc rej : List Stmt}
    (inline : ((Stmt.branch cond acc rej).inlineBody locals).outcome = .ok flow) :
    ∃ verdict inner, cond.verdict? locals = some verdict
      ∧ (inlineBodies (if verdict then acc else rej) locals.openScope).outcome = .ok inner
      ∧ inner.leaveScope = flow := by
  simp only [inlineBody, bind_ok] at inline
  obtain ⟨inlined, inlCond, simplified, isSimplified, inline⟩ := inline
  have inlCond : cond.inlineLocals locals = .ok inlined := inlCond
  obtain rfl : (Rules.simplify Rule.all inlined).result = simplified := Except.ok.inj isSimplified
  simp only [Expr.verdict?, inlCond]
  split at inline
  · next folded =>
    simp only [bind_ok] at inline
    obtain ⟨inner, inlI, isFlow⟩ := inline
    exact ⟨true, inner, by simp only [folded], inlI, Except.ok.inj isFlow⟩
  · next folded =>
    simp only [bind_ok] at inline
    obtain ⟨inner, inlI, isFlow⟩ := inline
    exact ⟨false, inner, by simp only [folded], inlI, Except.ok.inj isFlow⟩
  · cases inline

lemma declare_follows {name : String} {ty : Ty} {init : Option Expr}
    (annotated : (Stmt.declare name ty init).IsAnnotated entry result names)
    (isPl : plain → (Stmt.declare name ty init).IsPlain entry)
    (agrees : Agrees I entry plain locals (names :: more) m)
    (inline : ((Stmt.declare name ty init).inlineBody locals).outcome = .ok flow)
    (coming : m.verdicts = left) :
    Follows I entry plain result (names.declare name ty :: more) left flow
      ((Stmt.declare name ty init).run I m) := by
  cases init with
  | none =>
    obtain rfl := Except.ok.inj inline
    exact .through (agrees.declare name .unset) (by simpa using coming)
  | some init =>
    simp only [inlineBody, bind_ok] at inline
    obtain ⟨x, inlineInit, isFlow⟩ := inline
    obtain rfl := Except.ok.inj isFlow
    obtain ⟨annInit, conv⟩ := annotated.2 init rfl
    obtain ⟨put, tyX⟩ := agrees.inlineLocals annInit (fun here => isPl here init rfl) inlineInit
    refine .through (agrees.declare name (.set (put.storedAs (tyX ▸ conv)) ?_))
      (by simpa using coming)
    rw [Expr.ty_storedAs]

lemma eval_follows (annotated : e.IsAnnotatedUnder entry names)
    (isPl : plain → e.IsPureStatement entry)
    (agrees : Agrees I entry plain locals (names :: more) m)
    (inline : ((Stmt.eval e).inlineBody locals).outcome = .ok flow) (coming : m.verdicts = left) :
    Follows I entry plain result (names :: more) left flow (e.run I m) := by
  simp only [inlineBody, bind_ok] at inline
  obtain ⟨locs', inlineE, isFlow⟩ := inline
  obtain rfl := Except.ok.inj isFlow
  obtain ⟨name, x, v, rfl, run, put, known⟩ := agrees.inlineAssignment annotated isPl inlineE
  rw [run]
  exact .through (agrees.store put known) (by simpa using coming)

lemma return_follows {val : Option Expr} (annotated : (Stmt.ret val).IsAnnotated entry result names)
    (isPl : plain → (Stmt.ret val).IsPlain entry)
    (agrees : Agrees I entry plain locals (names :: more) m)
    (inline : ((Stmt.ret val).inlineBody locals).outcome = .ok flow) :
    Follows I entry plain result (names :: more) left flow ((Stmt.ret val).run I m) := by
  cases val with
  | none => cases inline
  | some val =>
    simp only [inlineBody, bind_ok] at inline
    obtain ⟨x, inlineValue, isFlow⟩ := inline
    obtain rfl := Except.ok.inj isFlow
    obtain ⟨put, tyX⟩ := agrees.inlineLocals annotated.1 (fun here => isPl here val rfl) inlineValue
    exact .returned put (tyX ▸ annotated.2)

end Steps

section Runs

variable {A : Arithmetic} {I : Interpretation A} {entry : Site} {plain : Prop}

mutual

/-- A statement that is inlined is run in the same way. -/
lemma inlineBody_follows : (s : Stmt) → ∀ {result : Ty} {names : Names} {more : List Names}
    {locals : Locals} {m : Machine A} {flow : Flow} {left : List Bool},
    s.IsAnnotated entry result names → (plain → s.IsPlain entry) →
    Agrees I entry plain locals (names :: more) m → (s.inlineBody locals).outcome = .ok flow →
    m.verdicts = s.verdicts locals ++ left →
    Follows I entry plain result (s.declares names :: more) left flow (s.run I m)
  | .declare .., _, _, _, _, _, _, _, annotated, isPl, agrees, inline, coming =>
    declare_follows annotated isPl agrees inline coming
  | .eval _, _, _, _, _, _, _, _, annotated, isPl, agrees, inline, coming =>
    eval_follows annotated isPl agrees inline coming
  | .ret _, _, _, _, _, _, _, _, annotated, isPl, agrees, inline, _ =>
    return_follows annotated isPl agrees inline
  | .block body, _, _, _, _, _, _, _, annotated, isPl, agrees, inline, coming => by
    simp only [inlineBody, bind_ok] at inline
    obtain ⟨inner, inlI, isFlow⟩ := inline
    obtain rfl := Except.ok.inj isFlow
    obtain ⟨after, follows⟩ := inlineBodies_follows body annotated isPl agrees.openScope inlI coming
    exact follows.leaveScope
  | .branch condition accept reject, _, _, _, locals, m, _, left, annotated, isPl, agrees,
      inline, coming => by
    obtain ⟨verdict, inner, decided, inlI, rfl⟩ := outcome_inlineBody_branch inline
    cases verdict with
    | true =>
      simp only [verdicts, decided, List.cons_append] at coming
      obtain ⟨after, follows⟩ := inlineBodies_follows accept annotated.2.1
        (fun here => (isPl here).2.1)
        (agrees.withVerdicts (verdictsAll accept locals.openScope ++ left)).openScope
        inlI rfl
      simp only [run, coming]
      exact follows.leaveScope
    | false =>
      simp only [verdicts, decided, List.cons_append] at coming
      obtain ⟨after, follows⟩ := inlineBodies_follows reject annotated.2.2
        (fun here => (isPl here).2.2)
        (agrees.withVerdicts (verdictsAll reject locals.openScope ++ left)).openScope
        inlI rfl
      simp only [run, coming]
      exact follows.leaveScope
  | .loop .., _, _, _, _, _, _, _, _, _, _, inline, _ => by cases inline
  | .leave, _, _, _, _, _, _, _, _, _, _, inline, _
  | .next, _, _, _, _, _, _, _, _, _, _, inline, _ => by cases inline

lemma inlineBodies_follows : (ss : List Stmt) → ∀ {result : Ty} {names : Names}
    {more : List Names} {locals : Locals} {m : Machine A} {flow : Flow} {left : List Bool},
    AllAnnotated entry result names ss → (plain → AllPlain entry ss) →
    Agrees I entry plain locals (names :: more) m → (inlineBodies ss locals).outcome = .ok flow →
    m.verdicts = verdictsAll ss locals ++ left →
    ∃ after, Follows I entry plain result (after :: more) left flow (runAll I ss m)
  | [], _, names, _, _, _, _, _, _, _, agrees, inline, coming => by
    obtain rfl := Except.ok.inj inline
    exact ⟨names, .through agrees coming⟩
  | s :: ss, _, names, _, locals, m, flow, left, annotated, isPl, agrees, inline, coming => by
    simp only [inlineBodies, bind_ok] at inline
    obtain ⟨fst, inlineFirst, inline⟩ := inline
    simp only [verdictsAll, inlineFirst, List.append_assoc] at coming
    have follows := inlineBody_follows s annotated.1 (fun here => (isPl here).1) agrees
      inlineFirst coming
    rw [runAll]
    generalize s.run I m = ending at follows
    cases follows with
    | returned put conv =>
      obtain rfl := Except.ok.inj inline
      exact ⟨names, .returned put conv⟩
    | through agrees rest =>
      exact inlineBodies_follows ss annotated.2 (fun here => (isPl here).2) agrees inline rest

end

end Runs

end Stmt

/-! ## Functions -/

namespace FunctionDef

lemma expression_eq_ok {f : FunctionDef} (reduced : f.expression.outcome = .ok e) :
    (Stmt.inlineBodies f.body .empty).outcome = .ok (.returned e) := by
  simp only [expression, bind_ok] at reduced
  obtain ⟨flow, inline, ends⟩ := reduced
  cases flow with
  | returned val =>
    obtain rfl := Except.ok.inj ends
    exact inline
  | through locals => cases ends

/-- A run of a body returns what its expression stands for. -/
lemma run_putIn {f : FunctionDef} {symbols : SymbolTable} {plain : Prop}
    (annotated : Stmt.AllAnnotated (f.entry symbols) f.result (f.entry symbols).symbols.lookup
      f.body) (isPl : plain → Stmt.AllPlain (f.entry symbols) f.body)
    (reduced : f.expression.outcome = .ok e) {A : Arithmetic} (I : Interpretation A) :
    ∃ v, f.run I f.verdicts = .returned v ∧ PutIn I (f.entry symbols) plain e v
      ∧ e.ty.convertsTo f.result := by
  have start : Agrees I (f.entry symbols) plain .empty _ ⟨[.empty], I.read, f.verdicts⟩ :=
    agrees_start f.verdicts
  obtain ⟨after, follows⟩ := Stmt.inlineBodies_follows f.body annotated isPl start
    (expression_eq_ok reduced) (List.append_nil _).symm
  rw [run]
  generalize Stmt.runAll I f.body _ = ending at follows
  cases follows with
  | returned put conv => exact ⟨_, rfl, put, conv⟩

section Types

variable {f : FunctionDef} {symbols : SymbolTable} {e : Expr}
  (annotated : Stmt.AllAnnotated (f.entry symbols) f.result (f.entry symbols).symbols.lookup f.body)
  (reduced : f.expression.outcome = .ok e)

include annotated reduced

/-- The expression that an annotated body comes down to is one of the place where the body starts, of
a type that converts to the result. -/
lemma expression_fits {plain : Prop} (isPl : plain → Stmt.AllPlain (f.entry symbols) f.body) :
    (∀ s, Expr.Within s e → plain ∨ (f.entry symbols).WritesNothing s → (f.entry symbols).Fits s)
      ∧ e.ty.convertsTo f.result := by
  let u : Unspecified := ⟨fun a => a, fun a => a, fun a => a, 0, 0⟩
  let I : Interpretation (.exact u) :=
    ⟨fun _ => Value.zeroData, fun _ _ => Value.zeroData, fun _ _ => Value.zeroData⟩
  obtain ⟨v, -, put, conv⟩ := run_putIn annotated isPl reduced I
  exact ⟨put.fits, conv⟩

lemma expression_isWellTyped : e.IsWellTyped (f.entry symbols) ∧ e.ty.convertsTo f.result := by
  obtain ⟨fits, conv⟩ := expression_fits annotated reduced False.elim
  exact ⟨fun s ins nothing => fits s ins (.inr nothing), conv⟩

lemma expression_isAnnotated (plain : Stmt.AllPlain (f.entry symbols) f.body) :
    e.IsAnnotated (f.entry symbols) ∧ e.ty.convertsTo f.result := by
  obtain ⟨fits, conv⟩ := expression_fits annotated reduced fun _ : True => plain
  exact ⟨fun s ins => fits s ins (.inl trivial), conv⟩

end Types

end FunctionDef

end ShaderAlgebra
