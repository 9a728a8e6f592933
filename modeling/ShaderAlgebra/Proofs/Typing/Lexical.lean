import ShaderAlgebra.Proofs.Typing.Recheck

/-!
# Lexical scoping

The checker keeps its scopes in a table of frames, with a cursor that opens and closes them as it
goes. Here the same rules are written down without a table (`FunctionDef.annotate`): an environment
is a list of bindings that nothing changes. It is handed down the statements, a declaration puts its
binding in front for those after it, and a block, a branch or a loop gives nothing back.

The two agree on every function and every table that can be built (`FunctionDef.infer_eq_annotate`),
on what they accept and on the error where they reject. The cursor is at the frame where it was after
every statement and every block, also if the check stopped in the middle of it.
-/

namespace ShaderAlgebra

open SymbolTable ShaderAlgebra.Expr

/-! ## Environments -/

/-- What is known at a place. The innermost binding of a name stands first. -/
structure Environment where
  bindings : List (String × Ty)
  functions : Bindings (List Overload)
  structs : Bindings Ty

namespace Environment

def declare (env : Environment) (name : String) (ty : Ty) : Environment :=
  { env with bindings := (name, ty) :: env.bindings }

def declareAll (env : Environment) : List (String × Ty) → Environment
  | [] => env
  | (name, ty) :: rest => (env.declare name ty).declareAll rest

def lookup (env : Environment) (name : String) : Option Ty := Bindings.lookupEntry name env.bindings

/-- The environment as a table of one frame. -/
def table (env : Environment) : SymbolTable :=
  ⟨#[⟨none, ⟨env.bindings⟩⟩], 0, env.functions, env.structs⟩

def site (env : Environment) (enclosing : Enclosing) : Site := enclosing.site env.table

lemma lookup_table (env : Environment) : env.table.lookup = env.lookup := by
  funext name
  have walked : env.table.lookup name = env.table.walk name 1 0 := rfl
  have only : env.table.frames[0]? = some ⟨none, ⟨env.bindings⟩⟩ := rfl
  rw [walked]
  change _ = Bindings.get? ⟨env.bindings⟩ name
  simp only [SymbolTable.walk, only]
  cases Bindings.get? ⟨env.bindings⟩ name <;> rfl

end Environment

namespace SymbolTable

/-- The bindings of a frame and, after them, those of the frames around it. -/
def visible (table : SymbolTable) : (steps : Nat) → (frame : Nat) → List (String × Ty)
  | 0, _ => []
  | steps + 1, number =>
    match table.frames[number]? with
    | none => []
    | some frame =>
      match frame.parent with
      | some parent => frame.symbols.entries ++ table.visible steps parent
      | none => frame.symbols.entries

/-- What is known in the current frame. -/
def environment (table : SymbolTable) : Environment :=
  ⟨table.visible table.frames.size table.current, table.functions, table.structs⟩

lemma lookupEntry_append (name : String) (inner out : List (String × Ty)) :
    Bindings.lookupEntry name (inner ++ out)
      = (Bindings.lookupEntry name inner).or (Bindings.lookupEntry name out) := by
  induction inner with
  | nil => rfl
  | cons entry inner ih =>
    simp only [List.cons_append, Bindings.lookupEntry, ih]
    split <;> rfl

lemma lookupEntry_visible (table : SymbolTable) (name : String) (steps frame : Nat) :
    Bindings.lookupEntry name (table.visible steps frame) = table.walk name steps frame := by
  induction steps generalizing frame with
  | zero => rfl
  | succ steps ih =>
    simp only [visible, walk, Bindings.get?]
    cases table.frames[frame]? with
    | none => rfl
    | some frame =>
      cases out : frame.parent with
      | none => cases found : Bindings.lookupEntry name frame.symbols.entries <;> simp [out, found]
      | some parent =>
        simp only [out, lookupEntry_append, ih]
        cases Bindings.lookupEntry name frame.symbols.entries <;> rfl

end SymbolTable

namespace Environment

/-- The environment says of every name what the table says. -/
structure Describes (env : Environment) (table : SymbolTable) : Prop where
  lookup : table.lookup = env.lookup
  overloads : table.overloads = env.table.overloads
  structs : table.structs = env.structs

lemma describes_environment (table : SymbolTable) : table.environment.Describes table :=
  ⟨funext fun name => (table.lookupEntry_visible name _ _).symm, rfl, rfl⟩

namespace Describes

variable {env : Environment} {table later : SymbolTable} (describes : env.Describes table)
include describes

section

variable (wf : table.WellFormed)

include wf

lemma pushScope : env.Describes table.pushScope :=
  ⟨(lookup_pushScope wf).trans describes.lookup, describes.overloads, describes.structs⟩

lemma declare (name : String) (ty : Ty) :
    (env.declare name ty).Describes (table.declare name ty).2 := by
  refine ⟨funext fun oth => ?_, describes.overloads, describes.structs⟩
  rw [lookup_declare wf, describes.lookup]
  rfl

lemma declareAll (decls : List (String × Ty)) :
    (env.declareAll decls).Describes (table.declareAll decls) := by
  induction decls generalizing env table with
  | nil => exact describes
  | cons decl rest ih =>
    exact ih (describes.declare wf _ _) (wellFormed_declare wf _ _)

lemma popScope (ext : table.pushScope.Extends later) : env.Describes later.popScope := by
  have out := extends_popScope wf ext
  exact ⟨(lookup_popScope wf ext).trans describes.lookup,
    out.overloads.trans describes.overloads, out.structs.trans describes.structs⟩

end

end Describes

end Environment

/-! ## Annotation under an environment -/

namespace Stmt

mutual

/-- The annotated statement and the environment after it. -/
def annotate (enclosing : Enclosing) (env : Environment) :
    Stmt → Except TypeError (Stmt × Environment)
  | .declare name ty init => do
    let declared := env.table.resolve ty
    if declared.isDeclarable then
      let init' ← (env.site enclosing).initializer name declared init
      return (.declare name declared init', env.declare name declared)
    else
      throw ((env.site enclosing).errorAt (Stmt.declare name ty init).text
        (.badDeclaration name declared))
  | .eval expr => do
    let expr ← expr.infer (env.site enclosing)
    return (.eval expr, env)
  | .ret value => do
    let s ← checkReturn enclosing (env.site enclosing) value
    return (s, env)
  | .branch condition accept reject => do
    let condition ← (env.site enclosing).condition condition
    let (accept, _) ← annotateAll enclosing env accept
    let (reject, _) ← annotateAll enclosing env reject
    return (.branch condition accept reject, env)
  | .loop init condition step body => do
    let (init, inner) ← annotateOption enclosing env init
    let condition ← condition.mapM (inner.site enclosing).condition
    let step ← step.mapM (Expr.infer (inner.site enclosing))
    let (body, _) ← annotateAll enclosing inner body
    return (.loop init condition step body, env)
  | .block body => do
    let (body, _) ← annotateAll enclosing env body
    return (.block body, env)
  | .leave => return (.leave, env)
  | .next => return (.next, env)

def annotateOption (enclosing : Enclosing) (env : Environment) :
    Option Stmt → Except TypeError (Option Stmt × Environment)
  | none => return (none, env)
  | some s => do
    let (s, env) ← annotate enclosing env s
    return (some s, env)

def annotateAll (enclosing : Enclosing) (env : Environment) :
    List Stmt → Except TypeError (List Stmt × Environment)
  | [] => return ([], env)
  | s :: ss => do
    let (s, env) ← annotate enclosing env s
    let (ss, env) ← annotateAll enclosing env ss
    return (s :: ss, env)

end

end Stmt

/-- The annotated function, with its parameters in front of what is known outside of it. -/
def FunctionDef.annotate (f : FunctionDef) (env : Environment) : Except TypeError FunctionDef := do
  let form := env.table.overloadOf f
  let inner := env.declareAll (form.parameters.map fun p => (p.name, p.ty))
  let (body, _) ← Stmt.annotateAll ⟨f.name, form.result⟩ inner f.body
  return ⟨f.name, form.parameters, form.result, body⟩

/-! ## Expressions -/

lemma inferAll_congr {site site' : Site} {es : List Expr}
    (each : ∀ e ∈ es, e.infer site' = e.infer site) : inferAll site' es = inferAll site es := by
  induction es with
  | nil => rfl
  | cons e es ih =>
    rw [inferAll, inferAll, each e List.mem_cons_self,
      ih fun oth mem => each oth (List.mem_cons_of_mem _ mem)]

namespace Site

/-- The sites give every name the same meaning and stand in the same function. -/
structure Alike (site site' : Site) : Prop extends SameDeclarations site site' where
  lookup : site'.symbols.lookup = site.symbols.lookup
  function : site'.function = site.function

namespace Alike

variable {site site' : Site} (alike : Alike site site')
include alike

lemma errorAt : site'.errorAt = site.errorAt := by
  funext text fault
  rw [Site.errorAt, Site.errorAt, alike.function]

lemma built : site'.built = site.built := by
  funext node result
  rw [Site.built, Site.built, alike.errorAt]

lemma requireBool : site'.requireBool = site.requireBool := by
  funext condition
  rw [Site.requireBool, Site.requireBool, alike.errorAt]

lemma callType : site'.callType = site.callType := by
  funext node function args
  simp only [Site.callType, alike.errorAt, alike.structType?, alike.overloadFor]

/-- Inference reads no more of the symbols than what the names mean. -/
lemma infer (e : Expr) : e.infer site' = e.infer site := by
  induction e using Expr.induction with
  | node e parts =>
    cases e with
    | literal => rfl
    | ident => simp only [Expr.infer, alike.lookup, alike.errorAt]
    | field base =>
      have same := parts base mem_base
      simp only [Expr.infer, same, alike.built]
    | index base pos =>
      have same := parts base mem_indexed
      have same' := parts pos mem_position
      simp only [Expr.infer, same, same', alike.built, alike.errorAt]
    | unary op opd =>
      have same := parts opd mem_operand
      simp only [Expr.infer, same, alike.built]
    | binary op left right =>
      have same := parts left mem_left
      have same' := parts right mem_right
      simp only [Expr.infer, same, same', alike.built]
    | call fn args =>
      have same : Expr.inferAll site' args = _ := inferAll_congr parts
      simp only [Expr.infer, same, alike.callType]
    | conditional cond acc rej =>
      have same := parts cond mem_condition
      have same' := parts acc mem_accept
      have same'' := parts rej mem_reject
      simp only [Expr.infer, same, same', same'', alike.built, alike.requireBool]
    | assign op tgt val =>
      have same := parts tgt mem_target
      have same' := parts val mem_value
      simp only [Expr.infer, same, same', alike.errorAt]

lemma initializer : site'.initializer = site.initializer := by
  funext name declared init
  cases init with
  | none => rfl
  | some init => simp only [Site.initializer, Site.requireInitializer, alike.infer, alike.errorAt]

lemma condition : site'.condition = site.condition := by
  funext condition
  simp only [Site.condition, alike.infer, alike.requireBool]

lemma checkReturn (enclosing : Enclosing) :
    Stmt.checkReturn enclosing site' = Stmt.checkReturn enclosing site := by
  funext value
  cases value <;> simp only [Stmt.checkReturn, alike.infer, alike.errorAt]

end Alike

end Site

namespace Environment.Describes

variable {env : Environment} {table : SymbolTable} (describes : env.Describes table)
include describes

lemma alike (enclosing : Enclosing) : (env.site enclosing).Alike (enclosing.site table) :=
  ⟨⟨describes.overloads, describes.structs⟩, describes.lookup.trans env.lookup_table.symm, rfl⟩

lemma resolve : table.resolve = env.table.resolve :=
  funext (resolve_congr describes.structs)

lemma overloadOf : table.overloadOf = env.table.overloadOf :=
  funext (overloadOf_congr describes.structs)

end Environment.Describes

/-! ## The tables that can be built -/

namespace SymbolTable

/-- A table that is built by the operations on tables. -/
inductive Made : SymbolTable → Prop
  | empty : Made .empty
  | pushScope {table : SymbolTable} : Made table → Made table.pushScope
  | popScope {table : SymbolTable} : Made table → Made table.popScope
  | declare {table : SymbolTable} (name : String) (ty : Ty) :
    Made table → Made (table.declare name ty).2
  | declareFunction {table : SymbolTable} (name : String) (form : Overload) :
    Made table → Made (table.declareFunction name form)
  | declareStruct {table : SymbolTable} (declaration : StructDef) :
    Made table → Made (table.declareStruct declaration)

lemma wellFormed_popScope {table : SymbolTable} (wf : table.WellFormed) :
    table.popScope.WellFormed := by
  unfold popScope
  split
  · next parent syms found =>
    have earlier := wf.parents table.current ⟨some parent, syms⟩ parent found rfl
    exact ⟨Nat.lt_trans earlier wf.current, wf.parents⟩
  · exact wf

namespace Made

lemma wellFormed {table : SymbolTable} (made : Made table) : table.WellFormed := by
  induction made with
  | empty => exact wellFormed_empty
  | pushScope _ ih => exact wellFormed_pushScope ih
  | popScope _ ih => exact wellFormed_popScope ih
  | declare name ty _ ih => exact wellFormed_declare ih name ty
  | declareFunction name form _ ih => exact wellFormed_declareFunction ih name form
  | declareStruct decl _ ih => exact wellFormed_declareStruct ih decl

lemma declareAll {table : SymbolTable} (made : Made table) (decls : List (String × Ty)) :
    Made (table.declareAll decls) := by
  induction decls generalizing table with
  | nil => exact made
  | cons decl rest ih => exact ih (made.declare decl.1 decl.2)

end Made

end SymbolTable

/-- The environment describes a table that can be built. -/
structure Environment.Mirrors (env : Environment) (table : SymbolTable) : Prop where
  made : table.Made
  describes : env.Describes table

namespace Environment.Mirrors

variable {env : Environment} {table : SymbolTable} (mirrors : env.Mirrors table)
include mirrors

lemma wf : table.WellFormed := mirrors.made.wellFormed

lemma pushScope : env.Mirrors table.pushScope :=
  ⟨mirrors.made.pushScope, mirrors.describes.pushScope mirrors.wf⟩

lemma alike (enclosing : Enclosing) : (env.site enclosing).Alike (enclosing.site table) :=
  mirrors.describes.alike enclosing

end Environment.Mirrors

/-! ## Checks that follow an environment -/

namespace Checking

variable {α β : Type}

/-- A check follows a result that was found with an environment: it fails in the same way, or gives
the same value and leaves symbols that the new environment describes. In both cases it leaves the
frames that were there as they were, up to declarations in the current one. -/
structure Follows (check : Checking α) (table : SymbolTable)
    (result : Except TypeError (α × Environment)) : Prop where
  made : (check.run.run table).2.Made
  extends_ : table.Extends (check.run.run table).2
  outcome : (check.run.run table).1 = result.map Prod.fst
  describes : ∀ value env, result = .ok (value, env) → env.Describes (check.run.run table).2

variable {table : SymbolTable} {env : Environment}

section

variable (mirrors : env.Mirrors table)

include mirrors

lemma follows_pure (val : α) : (pure val : Checking α).Follows table (.ok (val, env)) := by
  refine ⟨mirrors.made, .refl mirrors.wf, rfl, ?_⟩
  rintro _ _ ⟨⟩
  exact mirrors.describes

lemma follows_declare (name : String)
    (ty : Ty) : (declare name ty).Follows table (.ok ((), env.declare name ty)) := by
  refine ⟨mirrors.made.declare name ty, extends_declare mirrors.wf name ty, rfl, ?_⟩
  rintro _ _ ⟨⟩
  exact mirrors.describes.declare mirrors.wf name ty

lemma follows_withSymbols {check : SymbolTable → Except TypeError α} {res : Except TypeError α}
    (same : check table = res) :
    (withSymbols check).Follows table (res.map fun val => (val, env)) := by
  refine ⟨mirrors.made, .refl mirrors.wf, ?_, fun val env' given => ?_⟩
  · change check table = _
    rw [same]
    cases res <;> rfl
  · obtain ⟨_, -, isPair⟩ := map_eq_ok.mp given
    cases isPair
    exact mirrors.describes

/-- A scope is closed whether its check fails or not. -/
lemma follows_inScope {check : Checking α}
    {res : Except TypeError (α × Environment)} (ins : check.Follows table.pushScope res) :
    (inScope check).Follows table (res.map fun pair => (pair.1, env)) := by
  have closed := mirrors.describes.popScope mirrors.wf ins.extends_
  refine ⟨ins.made.popScope, extends_popScope mirrors.wf ins.extends_, ?_, ?_⟩
  · refine ins.outcome.trans ?_
    cases res <;> rfl
  · intro val env' given
    obtain ⟨_, -, isPair⟩ := map_eq_ok.mp given
    cases isPair
    exact closed

end

section Sequence

variable {check : Checking α} {next : α → Checking β}
  {nextResult : α × Environment → Except TypeError (β × Environment)}

/-- Checks follow one after another. -/
lemma follows_bind {res : Except TypeError (α × Environment)} (fst : check.Follows table res)
    (snd : ∀ val env mid, res = .ok (val, env) → env.Mirrors mid →
      (next val).Follows mid (nextResult (val, env))) :
    (check >>= next).Follows table (res >>= nextResult) := by
  obtain ⟨made, ext, outc, describes⟩ := fst
  have run := run_bind check next table
  revert made ext outc describes run
  generalize check.run.run table = reply
  obtain ⟨found, mid⟩ := reply
  intro made ext outc describes run
  cases res with
  | error error =>
    cases (show found = .error error from outc)
    refine ⟨?_, ?_, ?_, fun _ _ failed => nomatch failed⟩ <;> rw [run]
    · exact made
    · exact ext
    · rfl
  | ok pair =>
    obtain ⟨val, env⟩ := pair
    cases (show found = .ok val from outc)
    obtain ⟨made', ext', outc', desc'⟩ := snd val env mid rfl ⟨made, describes val env rfl⟩
    refine ⟨?_, ?_, ?_, ?_⟩ <;> rw [run]
    · exact made'
    · exact ext.trans ext'
    · exact outc'
    · exact desc'

lemma follows_withSymbols_bind (mirrors : env.Mirrors table)
    {check : SymbolTable → Except TypeError α} {res : Except TypeError α}
    {nextResult : α → Except TypeError (β × Environment)} (same : check table = res)
    (snd : ∀ val mid, env.Mirrors mid → (next val).Follows mid (nextResult val)) :
    (withSymbols check >>= next).Follows table (res >>= nextResult) := by
  have whole : (withSymbols check >>= next).Follows table
      ((res.map fun val => (val, env)) >>= fun pair => nextResult pair.1) := by
    refine follows_bind (follows_withSymbols mirrors same) ?_
    intro val env' mid given
    obtain ⟨_, -, isPair⟩ := map_eq_ok.mp given
    cases isPair
    exact snd val mid
  cases res <;> exact whole

/-- What stands in a scope of its own leaves the environment as it was. -/
lemma follows_inScope_bind (mirrors : env.Mirrors table) {res : Except TypeError (α × Environment)}
    (within : env.Mirrors table.pushScope → check.Follows table.pushScope res)
    (snd : ∀ val inner mid, env.Mirrors mid → (next val).Follows mid (nextResult (val, inner))) :
    (inScope check >>= next).Follows table (res >>= nextResult) := by
  have closed := follows_inScope mirrors (within mirrors.pushScope)
  cases res with
  | error error => exact follows_bind closed fun _ _ _ failed => nomatch failed
  | ok pair =>
    have whole : (inScope check >>= next).Follows table
        (Except.ok (pair.1, env) >>= fun oth => nextResult (oth.1, pair.2)) := by
      refine follows_bind closed ?_
      rintro _ _ mid ⟨⟩
      exact snd pair.1 pair.2 mid
    exact whole

end Sequence

end Checking

/-! ## Statements and functions -/

namespace Stmt

open Checking

variable (enclosing : Enclosing)

lemma checkDeclaration_follows {table : SymbolTable} {env : Environment}
    (mirrors : env.Mirrors table) (name : String) (ty : Ty) (init : Option Expr) :
    (checkDeclaration enclosing name ty init).Follows table
      (annotate enclosing env (.declare name ty init)) := by
  have alike := mirrors.alike enclosing
  let decl := env.table.resolve ty
  let found : Except TypeError (Ty × Option Expr) := if decl.isDeclarable then
      ((env.site enclosing).initializer name decl init).map fun init' => (decl, init')
    else
      throw ((env.site enclosing).errorAt (Stmt.declare name ty init).text
        (.badDeclaration name decl))
  have split : annotate enclosing env (.declare name ty init) = found >>= fun pair =>
      return (.declare name pair.1 pair.2, env.declare name pair.1) := by
    simp only [annotate, found, decl]
    split
    · cases (env.site enclosing).initializer name (env.table.resolve ty) init <;> rfl
    · rfl
  rw [split, checkDeclaration]
  refine follows_withSymbols_bind mirrors ?_ ?_
  · simp only [found, decl, mirrors.describes.resolve, alike.initializer, alike.errorAt]
    cases (env.table.resolve ty).isDeclarable with
    | false => rfl
    | true => cases (env.site enclosing).initializer name (env.table.resolve ty) init <;> rfl
  · rintro ⟨decl, init'⟩ mid mir'
    have whole : Checking.Follows
        (do Checking.declare name decl; return Stmt.declare name decl init') mid
        (Except.ok ((), env.declare name decl) >>= fun pair =>
          return (Stmt.declare name decl init', pair.2)) := by
      refine follows_bind (follows_declare mir' name decl) ?_
      intro _ env' last _ mir''
      exact follows_pure mir'' _
    exact whole

mutual

lemma check_follows : (s : Stmt) → ∀ {table : SymbolTable} {env : Environment},
    env.Mirrors table → (check enclosing s).Follows table (annotate enclosing env s)
  | .declare name ty init, _, _, mirrors =>
    checkDeclaration_follows enclosing mirrors name ty init
  | .eval e, table, env, mirrors => by
    rw [check, annotate]
    refine follows_withSymbols_bind mirrors ((mirrors.alike enclosing).infer e) ?_
    intro e' mid mir'
    exact follows_pure mir' _
  | .ret val, table, env, mirrors => by
    have mapped : annotate enclosing env (.ret val)
        = (checkReturn enclosing (env.site enclosing) val).map fun s => (s, env) := by
      rw [annotate]
      cases checkReturn enclosing (env.site enclosing) val <;> rfl
    rw [check, mapped]
    refine follows_withSymbols mirrors ?_
    rw [(mirrors.alike enclosing).checkReturn]
  | .branch cond acc rej, table, env, mirrors => by
    rw [check, annotate]
    refine follows_withSymbols_bind mirrors (congrFun (mirrors.alike enclosing).condition cond) ?_
    intro cond' table mirrors
    refine follows_inScope_bind mirrors (checkAll_follows acc) ?_
    intro acc' _ table mirrors
    refine follows_inScope_bind mirrors (checkAll_follows rej) ?_
    intro rej' _ table mirrors
    exact follows_pure mirrors _
  | .loop init cond step body, table, env, mirrors => by
    let ins : Except TypeError (Stmt × Environment) := do
      let (init, inner) ← annotateOption enclosing env init
      let cond ← cond.mapM (inner.site enclosing).condition
      let step ← step.mapM (Expr.infer (inner.site enclosing))
      let (body, _) ← annotateAll enclosing inner body
      return (.loop init cond step body, inner)
    have closed : annotate enclosing env (.loop init cond step body)
        = ins.map fun pair => (pair.1, env) := by
      simp only [annotate, ins, map_of_bind]
      rfl
    rw [check, closed]
    refine follows_inScope mirrors ?_
    refine follows_bind (checkOption_follows init mirrors.pushScope) ?_
    intro init' inner table _ mirrors
    refine follows_withSymbols_bind mirrors (by rw [(mirrors.alike enclosing).condition]) ?_
    intro cond' table mirrors
    refine follows_withSymbols_bind mirrors (by rw [funext (mirrors.alike enclosing).infer]) ?_
    intro step' table mirrors
    refine follows_inScope_bind mirrors (checkAll_follows body) ?_
    intro body' _ table mirrors
    exact follows_pure mirrors _
  | .block body, table, env, mirrors => by
    rw [check, annotate]
    refine follows_inScope_bind mirrors (checkAll_follows body) ?_
    intro body' _ table mirrors
    exact follows_pure mirrors _
  | .leave, _, _, mirrors | .next, _, _, mirrors => follows_pure mirrors _

lemma checkOption_follows : (s : Option Stmt) → ∀ {table : SymbolTable} {env : Environment},
    env.Mirrors table → (checkOption enclosing s).Follows table (annotateOption enclosing env s)
  | none, _, _, mirrors => follows_pure mirrors _
  | some s, _, _, mirrors => by
    rw [checkOption, annotateOption]
    refine follows_bind (check_follows s mirrors) ?_
    intro s' env' mid _ mir'
    exact follows_pure mir' _

lemma checkAll_follows : (ss : List Stmt) → ∀ {table : SymbolTable} {env : Environment},
    env.Mirrors table → (checkAll enclosing ss).Follows table (annotateAll enclosing env ss)
  | [], _, _, mirrors => follows_pure mirrors _
  | s :: ss, _, _, mirrors => by
    rw [checkAll, annotateAll]
    refine follows_bind (check_follows s mirrors) ?_
    intro s' env' mid _ mir'
    refine follows_bind (checkAll_follows ss mir') ?_
    intro ss' env'' last _ mir''
    exact follows_pure mir'' _

end

end Stmt

/-- The check comes back to the frame where it started, whether it fails or not, and what it leaves
is again a table that can be built. -/
def Checking.KeepsFrame {α : Type} (check : Checking α) : Prop :=
  ∀ table : SymbolTable, table.Made →
    (check.run.run table).2.Made ∧ (check.run.run table).2.current = table.current

lemma Checking.KeepsFrame.of {α : Type} {check : Checking α}
    {res : SymbolTable → Except TypeError (α × Environment)}
    (follows : ∀ table : SymbolTable, table.Made → check.Follows table (res table)) :
    check.KeepsFrame :=
  fun table made => ⟨(follows table made).made, (follows table made).extends_.current⟩

namespace FunctionDef

open Environment (describes_environment)

lemma check_follows (f : FunctionDef) {syms : SymbolTable} {env : Environment}
    (mirrors : env.Mirrors syms) :
    f.check.Follows syms ((f.annotate env).map fun f' => (f', env)) := by
  let form := syms.overloadOf f
  let decls := form.parameters.map fun p => (p.name, p.ty)
  let body : Checking (List Stmt) := ExceptT.mk fun syms =>
    (Stmt.checkAll ⟨f.name, form.result⟩ f.body).run.run (syms.declareAll decls)
  have opn := mirrors.pushScope
  have follows := Stmt.checkAll_follows ⟨f.name, form.result⟩ f.body
    ⟨opn.made.declareAll decls, opn.describes.declareAll opn.wf decls⟩
  have ins : body.Follows syms.pushScope (Stmt.annotateAll ⟨f.name, form.result⟩
      (env.declareAll decls) f.body) :=
    ⟨follows.made, (extends_declareAll opn.wf _).trans follows.extends_,
      follows.outcome, follows.describes⟩
  have closed := Checking.follows_inScope mirrors ins
  refine ⟨closed.made, closed.extends_, ?_, ?_⟩
  · have outc : (f.check.run.run syms).1
        = ((Checking.inScope body).run.run syms).1.map fun body =>
          ⟨f.name, form.parameters, form.result, body⟩ := rfl
    rw [outc, closed.outcome, annotate, ← mirrors.describes.overloadOf]
    cases Stmt.annotateAll ⟨f.name, form.result⟩ (env.declareAll decls) f.body <;> rfl
  · intro f' env' given
    obtain ⟨_, -, isPair⟩ := map_eq_ok.mp given
    cases isPair
    exact mirrors.describes.popScope mirrors.wf ins.extends_

/-- Checking a function with a table of frames gives what annotating it with an environment gives,
the same function or the same error at the same place. The checker is back at the frame where it
started after every function, statement and block, accepted or not. -/
theorem infer_eq_annotate (f : FunctionDef) {symbols : SymbolTable} (made : symbols.Made) :
    (f.infer symbols).outcome = f.annotate symbols.environment
      ∧ f.check.KeepsFrame
      ∧ (∀ enclosing s, (Stmt.check enclosing s).KeepsFrame)
      ∧ ∀ enclosing ss, (Stmt.checkAll enclosing ss).KeepsFrame
        ∧ (Checking.inScope (Stmt.checkAll enclosing ss)).KeepsFrame := by
  refine ⟨?_, ?_, fun enclosing s => ?_, fun enclosing ss => ⟨?_, ?_⟩⟩
  · have outcome := (f.check_follows ⟨made, describes_environment symbols⟩).outcome
    rw [infer, Logged.outcome_bind, Logged.outcome_emit]
    refine outcome.trans ?_
    cases f.annotate symbols.environment <;> rfl
  · exact .of fun table made => f.check_follows ⟨made, describes_environment table⟩
  · exact .of fun table made => Stmt.check_follows enclosing s ⟨made, describes_environment table⟩
  · exact .of fun table made =>
      Stmt.checkAll_follows enclosing ss ⟨made, describes_environment table⟩
  · exact .of fun table made =>
      have mirrors : table.environment.Mirrors table := ⟨made, describes_environment table⟩
      Checking.follows_inScope mirrors (Stmt.checkAll_follows enclosing ss mirrors.pushScope)

/-- `float pick() { { int y = 1; } return y; }` -/
def pick : FunctionDef :=
  ⟨"pick", [], .float,
    [.block [.declare "y" .int (some (.ofInt 1))], .ret (some (.ident "y" .float))]⟩

/-- The `y` of the block is gone after it: the last statement means a `y` outside of the function, or
there is none. -/
theorem infer_pick :
    let withY := (SymbolTable.empty.declare "y" .float).2
    pick.annotate withY.environment = .ok pick
      ∧ pick.annotate SymbolTable.empty.environment
        = .error ⟨.unknownIdentifier "y", .ofText (some "pick") "y"⟩ := by
  intro withY
  have known : (pick.infer withY).outcome = .ok pick := rfl
  have unknown : (pick.infer .empty).outcome
      = .error ⟨.unknownIdentifier "y", .ofText (some "pick") "y"⟩ := rfl
  rw [← (infer_eq_annotate pick (.declare "y" .float .empty)).1, ← (infer_eq_annotate pick .empty).1]
  exact ⟨known, unknown⟩

end FunctionDef

end ShaderAlgebra
