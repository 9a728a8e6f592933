import ShaderAlgebra.Proofs.Typing.Annotated
import ShaderAlgebra.Proofs.Typing.Scopes

/-!
# Annotated bodies

What it means for the statements of a body to be annotated, said with scopes as functions from names
to types: a declaration is seen by the statements after it, and a block is left with the names as
they were (`Stmt.IsAnnotated`).

The checker keeps its names in a symbol table in place of such a function. `Stmt.Passes` says what it
does to the table, statement by statement. It is compared with the declarative condition once, in
`Passes.annotated`: a body that is accepted is annotated, and the table afterwards gives names the
meanings that the declarations say. Proofs about accepted bodies work with `Stmt.IsAnnotated` and
leave the table alone.
-/

namespace ShaderAlgebra

open SymbolTable

variable {name : String} {site' site : Site} {ty : Ty} {e : Expr}

/-- What the names in scope mean. -/
abbrev Names := String → Option Ty

def Names.declare (names : Names) (name : String) (ty : Ty) : Names :=
  fun other => if other = name then some ty else names other

/-! ## Expressions under names -/

namespace Site

lemma SameDeclarations.symm (same : SameDeclarations site site') : SameDeclarations site' site :=
  ⟨same.overloads.symm, same.structs.symm⟩

/-- Whether the annotation of the root is the one that its parts determine, where names have the
given meanings. Of the site only the functions and structs count. -/
def FitsUnder (site : Site) (names : Names) : Expr → Prop
  | .ident name ty => names name = some ty
  | e => site.Fits e

lemma Fits.under (same : SameDeclarations site site') (fits : site'.Fits e) :
    site.FitsUnder site'.symbols.lookup e := by
  have moved (notId : ∀ name ty, e ≠ .ident name ty) : site.Fits e := by
    have kept : site.Fits (e.mapParts id) := fits.mapParts same.symm
      (fun name ty isIdent => (notId name ty isIdent).elim) (fun _ _ => rfl)
      (.inr fun _ _ lvalue => lvalue)
    have unchanged : e.mapParts id = e := Expr.mapParts_eq_self fun _ _ => rfl
    rwa [unchanged] at kept
  cases e with
  | ident name ty => exact fits
  | _ => exact moved fun _ _ => nofun

end Site

namespace Expr

/-- Whether every node of the tree carries the type that its parts determine, where names have the
given meanings. -/
def IsAnnotatedUnder (site : Site) (names : Names) (e : Expr) : Prop :=
  ∀ s, Within s e → site.FitsUnder names s

lemma IsAnnotatedUnder.part {nms : Names} {part : Expr} (ann : e.IsAnnotatedUnder site nms)
    (mem : part ∈ e.children) : part.IsAnnotatedUnder site nms :=
  (forall_within_iff.mp ann).2 part mem

lemma isAnnotatedUnder_of_infer (same : Site.SameDeclarations site site') {t : Expr}
    (inf : e.infer site' = .ok t) : t.IsAnnotatedUnder site site'.symbols.lookup :=
  fun s ins => (isAnnotated_of_infer inf s ins).under same

end Expr

/-! ## Statements under names -/

namespace Stmt

/-- The names after a statement. Only a declaration says something to those after it. -/
def declares : Stmt → Names → Names
  | .declare name ty _, names => names.declare name ty
  | _, names => names

/-- An annotated tree of type `bool`. -/
def IsCondition (site : Site) (names : Names) (condition : Expr) : Prop :=
  condition.IsAnnotatedUnder site names ∧ condition.ty = Ty.bool

mutual

/-- Whether a statement of a function with the given result is annotated. -/
def IsAnnotated (site : Site) (result : Ty) (names : Names) : Stmt → Prop
  | .declare _ ty init =>
    ty.isDeclarable = true
      ∧ ∀ e ∈ init, e.IsAnnotatedUnder site names ∧ e.ty.convertsTo ty = true
  | .eval e => e.IsAnnotatedUnder site names
  | .ret none => result = .void
  | .ret (some value) =>
    value.IsAnnotatedUnder site names ∧ value.ty.convertsTo result = true
  | .branch condition accept reject =>
    IsCondition site names condition
      ∧ AllAnnotated site result names accept ∧ AllAnnotated site result names reject
  | .loop init condition step body =>
    -- The names of the header are those of its initial statement.
    let inside := init.elim names fun s => s.declares names
    OptionAnnotated site result names init
      ∧ (∀ e ∈ condition, IsCondition site inside e)
      ∧ (∀ e ∈ step, e.IsAnnotatedUnder site inside)
      ∧ AllAnnotated site result inside body
  | .block body => AllAnnotated site result names body
  | .leave => True
  | .next => True

def OptionAnnotated (site : Site) (result : Ty) (names : Names) : Option Stmt → Prop
  | none => True
  | some s => IsAnnotated site result names s

/-- Whether statements are annotated, each under the names that those before it declare. -/
def AllAnnotated (site : Site) (result : Ty) (names : Names) : List Stmt → Prop
  | [] => True
  | s :: ss => IsAnnotated site result names s ∧ AllAnnotated site result (s.declares names) ss

end

end Stmt

/-! ## Successful checks -/

namespace Checking

variable {α β : Type} {result : α} {symbols after : SymbolTable}

/-- The check succeeds with the given result and leaves the given symbols. -/
def Gives (check : Checking α) (symbols : SymbolTable) (result : α) (after : SymbolTable) : Prop :=
  (check.run.run symbols).1 = .ok result ∧ (check.run.run symbols).2 = after

lemma gives_pure {given : α} :
    (pure given : Checking α).Gives symbols result after ↔ given = result ∧ symbols = after := by
  change Except.ok given = .ok result ∧ symbols = after ↔ _
  rw [Except.ok.injEq]

lemma run_bind (check : Checking α) (next : α → Checking β) (symbols : SymbolTable) :
    (check >>= next).run.run symbols = match check.run.run symbols with
        | (.ok fst, mid) => (next fst).run.run mid
        | (.error e, mid) => (.error e, mid) := by
  simp only [ExceptT.run_bind, StateT.run_bind]
  rcases check.run.run symbols with ⟨outc, mid⟩
  cases outc <;> rfl

/-- A sequence of checks succeeds if each of them does, with the symbols of the one before it. -/
lemma gives_bind {check : Checking α} {next : α → Checking β} {result : β} :
    (check >>= next).Gives symbols result after ↔ ∃ fst mid, check.Gives symbols fst mid
        ∧ (next fst).Gives mid result after := by
  simp only [Gives, run_bind]
  rcases check.run.run symbols with ⟨outc, mid⟩
  cases outc <;> simp

lemma gives_withSymbols {check : SymbolTable → Except TypeError α} :
    (withSymbols check).Gives symbols result after ↔ check symbols = .ok result ∧ symbols = after :=
  Iff.rfl

lemma gives_declare {result : Unit} :
    (declare name ty).Gives symbols result after ↔ (symbols.declare name ty).2 = after :=
  and_iff_right rfl

lemma gives_inScope {check : Checking α} : (inScope check).Gives symbols result after ↔
      ∃ inner, check.Gives symbols.pushScope result inner ∧ inner.popScope = after := by
  constructor
  · rintro ⟨succeeds, closed⟩
    exact ⟨_, ⟨succeeds, rfl⟩, closed⟩
  · rintro ⟨inner, ⟨succeeds, rfl⟩, closed⟩
    exact ⟨succeeds, closed⟩

end Checking

/-! ## Accepted statements -/

namespace SymbolTable

/-- The later table gives every name the meaning that it had. -/
structure Keeps (table later : SymbolTable) : Prop where
  extends_ : table.Extends later
  lookup : later.lookup = table.lookup

variable {table later last : SymbolTable}

lemma Keeps.refl (wf : table.WellFormed) : Keeps table table := ⟨.refl wf, rfl⟩

lemma Keeps.trans (fst : Keeps table later) (snd : Keeps later last) : Keeps table last :=
  ⟨fst.extends_.trans snd.extends_, snd.lookup.trans fst.lookup⟩

/-- What happens in a scope is over when it is closed. -/
lemma Extends.keeps_popScope (ext : table.pushScope.Extends later) (wf : table.WellFormed) :
    table.Keeps later.popScope :=
  ⟨extends_popScope wf ext, lookup_popScope wf ext⟩

lemma structs_popScope (table : SymbolTable) : table.popScope.structs = table.structs := by
  unfold popScope
  split <;> rfl

end SymbolTable

namespace Stmt

/-- A statement that declares nothing and has no statements inside is accepted. -/
inductive PassesAlone (enclosing : Enclosing) (site : Site) : Stmt → Stmt → Prop
  | eval {e e'} : e.infer site = .ok e' → PassesAlone enclosing site (.eval e) (.eval e')
  | result {e e'} : e.infer site = .ok e' → e'.ty.convertsTo enclosing.result = true →
    PassesAlone enclosing site (.ret (some e)) (.ret (some e'))
  | noResult : enclosing.result = .void → PassesAlone enclosing site (.ret none) (.ret none)
  | leave : PassesAlone enclosing site .leave .leave
  | next : PassesAlone enclosing site .next .next

/-- Statements are accepted one after the other, from the first table to the last. -/
inductive Passes (enclosing : Enclosing) :
    SymbolTable → List Stmt → List Stmt → SymbolTable → Prop
  | done {table} : Passes enclosing table [] [] table
  | alone {table last s₀ s ss₀ ss} : PassesAlone enclosing (enclosing.site table) s₀ s →
    Passes enclosing table ss₀ ss last → Passes enclosing table (s₀ :: ss₀) (s :: ss) last
  | declare {table last name ty init init' ss₀ ss} : (table.resolve ty).isDeclarable = true →
    (enclosing.site table).initializer name (table.resolve ty) init = .ok init' →
    Passes enclosing (table.declare name (table.resolve ty)).2 ss₀ ss last →
    Passes enclosing table (.declare name ty init :: ss₀)
      (.declare name (table.resolve ty) init' :: ss) last
  | block {table inner last body body' ss₀ ss} :
    Passes enclosing table.pushScope body body' inner →
    Passes enclosing inner.popScope ss₀ ss last →
    Passes enclosing table (.block body :: ss₀) (.block body' :: ss) last
  | branch {table inner inner' last condition condition' accept accept' reject reject' ss₀ ss} :
    (enclosing.site table).condition condition = .ok condition' →
    Passes enclosing table.pushScope accept accept' inner →
    Passes enclosing inner.popScope.pushScope reject reject' inner' →
    Passes enclosing inner'.popScope ss₀ ss last →
    Passes enclosing table (.branch condition accept reject :: ss₀)
      (.branch condition' accept' reject' :: ss) last
  | loop {table header inner last init init' condition condition' step step' body body' ss₀ ss} :
    Passes enclosing table.pushScope init.toList init'.toList header →
    condition.mapM (enclosing.site header).condition = .ok condition' →
    step.mapM (Expr.infer (enclosing.site header)) = .ok step' →
    Passes enclosing header.pushScope body body' inner →
    Passes enclosing inner.popScope.popScope ss₀ ss last →
    Passes enclosing table (.loop init condition step body :: ss₀)
      (.loop init' condition' step' body' :: ss) last

section Passes

open Checking

variable {enclosing : Enclosing} {table next last : SymbolTable} {s : Stmt} {ss₀ ss : List Stmt}

lemma passes_of_checkDeclaration {init : Option Expr}
    (gives : (checkDeclaration enclosing name ty init).Gives table s next)
    (rest : Passes enclosing next ss₀ ss last) :
    Passes enclosing table (.declare name ty init :: ss₀) (s :: ss) last := by
  simp only [checkDeclaration, gives_bind, gives_withSymbols, gives_declare, gives_pure] at gives
  obtain ⟨⟨decl, init'⟩, _, ⟨chk, rfl⟩, _, _, rfl, rfl, rfl⟩ := gives
  split at chk
  · cases chk
  · next declb =>
    simp only [bind_eq_ok, pure_eq_ok, Prod.mk.injEq] at chk
    obtain ⟨_, initialized, rfl, rfl⟩ := chk
    exact .declare (by simpa using declb) initialized rest

lemma passesAlone_of_checkReturn {val : Option Expr}
    (chk : checkReturn enclosing site val = .ok s) : PassesAlone enclosing site (.ret val) s := by
  cases val with
  | none =>
    simp only [checkReturn] at chk
    split at chk
    · next isVoid =>
      cases chk
      exact .noResult isVoid
    · cases chk
  | some val =>
    simp only [checkReturn, bind_eq_ok] at chk
    obtain ⟨inf, isInf, chk⟩ := chk
    split at chk
    · next conv =>
      cases chk
      exact .result isInf conv
    · cases chk

mutual

lemma passes_of_check : (s₀ : Stmt) → ∀ {table next last s ss₀ ss},
    (check enclosing s₀).Gives table s next → Passes enclosing next ss₀ ss last →
    Passes enclosing table (s₀ :: ss₀) (s :: ss) last
  | .declare .., _, _, _, _, _, _, gives, rest => passes_of_checkDeclaration gives rest
  | .eval e, _, _, _, _, _, _, gives, rest => by
    simp only [check, gives_bind, gives_withSymbols, gives_pure] at gives
    obtain ⟨_, _, ⟨isInf, rfl⟩, rfl, rfl⟩ := gives
    exact .alone (.eval isInf) rest
  | .ret val, _, _, _, _, _, _, gives, rest => by
    simp only [check, gives_withSymbols] at gives
    obtain ⟨chk, rfl⟩ := gives
    exact .alone (passesAlone_of_checkReturn chk) rest
  | .branch cond acc rej, _, _, _, _, _, _, gives, rest => by
    simp only [check, gives_bind, gives_withSymbols, gives_inScope, gives_pure] at gives
    obtain ⟨_, _, ⟨isCond, rfl⟩, _, _, ⟨_, fst, rfl⟩, _, _, ⟨_, snd, rfl⟩, rfl, rfl⟩ := gives
    exact .branch isCond (passes_of_checkAll acc fst) (passes_of_checkAll rej snd) rest
  | .loop init cond step body, _, _, _, _, _, _, gives, rest => by
    simp only [check, gives_bind, gives_withSymbols, gives_inScope, gives_pure] at gives
    obtain ⟨_, ⟨_, _, isInit, _, _, ⟨isCond, rfl⟩, _, _, ⟨isStep, rfl⟩, _, _,
      ⟨_, isBody, rfl⟩, rfl, rfl⟩, rfl⟩ := gives
    exact .loop (passes_of_checkOption init isInit) isCond isStep
      (passes_of_checkAll body isBody) rest
  | .block body, _, _, _, _, _, _, gives, rest => by
    simp only [check, gives_bind, gives_inScope, gives_pure] at gives
    obtain ⟨_, _, ⟨_, chk, rfl⟩, rfl, rfl⟩ := gives
    exact .block (passes_of_checkAll body chk) rest
  | .leave, _, _, _, _, _, _, gives, rest => by
    obtain ⟨rfl, rfl⟩ := gives_pure.mp gives
    exact .alone .leave rest
  | .next, _, _, _, _, _, _, gives, rest => by
    obtain ⟨rfl, rfl⟩ := gives_pure.mp gives
    exact .alone .next rest

lemma passes_of_checkOption : (s₀ : Option Stmt) → ∀ {table next s},
    (checkOption enclosing s₀).Gives table s next →
    Passes enclosing table s₀.toList s.toList next
  | none, _, _, _, gives => by
    obtain ⟨rfl, rfl⟩ := gives_pure.mp gives
    exact .done
  | some s₀, _, _, _, gives => by
    simp only [checkOption, gives_bind, gives_pure] at gives
    obtain ⟨_, _, chk, rfl, rfl⟩ := gives
    exact passes_of_check s₀ chk .done

lemma passes_of_checkAll : (ss₀ : List Stmt) → ∀ {table last ss},
    (checkAll enclosing ss₀).Gives table ss last → Passes enclosing table ss₀ ss last
  | [], _, _, _, gives => by
    obtain ⟨rfl, rfl⟩ := gives_pure.mp gives
    exact .done
  | s₀ :: ss₀, _, _, _, gives => by
    simp only [checkAll, gives_bind, gives_pure] at gives
    obtain ⟨_, _, fst, _, _, rest, rfl, rfl⟩ := gives
    exact passes_of_check s₀ fst (passes_of_checkAll ss₀ rest)

end

lemma PassesAlone.gives {s₀ : Stmt} (passes : PassesAlone enclosing (enclosing.site table) s₀ s) :
    (check enclosing s₀).Gives table s table := by
  cases passes with
  | eval inf =>
    simp only [check, gives_bind, gives_withSymbols, gives_pure]
    exact ⟨_, _, ⟨inf, rfl⟩, rfl, rfl⟩
  | result inf conv =>
    simp only [check, gives_withSymbols, checkReturn, bind_eq_ok]
    exact ⟨⟨_, inf, by rw [if_pos conv]; rfl⟩, trivial⟩
  | noResult isVoid => simp only [check, gives_withSymbols, checkReturn, if_pos isVoid, and_self]
  | leave | next => exact gives_pure.mpr ⟨rfl, rfl⟩

lemma gives_checkOption {s₀ s : Option Stmt}
    (gives : (checkAll enclosing s₀.toList).Gives table s.toList next) :
    (checkOption enclosing s₀).Gives table s next := by
  cases s₀ with
  | none =>
    obtain ⟨none, rfl⟩ := gives_pure.mp gives
    exact gives_pure.mpr ⟨(Option.toList_eq_nil_iff.mp none.symm).symm, rfl⟩
  | some s₀ =>
    simp only [Option.toList_some, checkAll, gives_bind, gives_pure] at gives
    obtain ⟨_, _, fst, _, _, ⟨rfl, rfl⟩, single, rfl⟩ := gives
    simp only [checkOption, gives_bind, gives_pure]
    exact ⟨_, _, fst, (Option.toList_eq_singleton_iff.mp single.symm).symm, rfl⟩

lemma gives_checkAll :
    (checkAll enclosing ss₀).Gives table ss last ↔ Passes enclosing table ss₀ ss last := by
  refine ⟨passes_of_checkAll ss₀, fun passes => ?_⟩
  induction passes with
  | done => exact gives_pure.mpr ⟨rfl, rfl⟩
  | alone given _ ih =>
    simp only [checkAll, gives_bind, gives_pure]
    exact ⟨_, _, given.gives, _, _, ih, rfl, rfl⟩
  | declare declb initialized _ ih =>
    simp only [checkAll, check, checkDeclaration, gives_bind, gives_withSymbols,
      gives_declare, gives_pure, declb]
    refine ⟨_, _, ⟨⟨_, _⟩, _, ⟨?_, rfl⟩, (), _, rfl, rfl, rfl⟩, _, _, ih, rfl, rfl⟩
    exact bind_eq_ok.mpr ⟨_, initialized, rfl⟩
  | block _ _ ihBody ih =>
    simp only [checkAll, check, gives_bind, gives_inScope, gives_pure]
    exact ⟨_, _, ⟨_, _, ⟨_, ihBody, rfl⟩, rfl, rfl⟩, _, _, ih, rfl, rfl⟩
  | branch isCond _ _ _ ihA ihR ih =>
    simp only [checkAll, check, gives_bind, gives_withSymbols, gives_inScope, gives_pure]
    exact ⟨_, _, ⟨_, _, ⟨isCond, rfl⟩, _, _, ⟨_, ihA, rfl⟩, _, _, ⟨_, ihR, rfl⟩, rfl,
      rfl⟩, _, _, ih, rfl, rfl⟩
  | loop _ isCond isStep _ _ ihInit ihBody ih =>
    simp only [checkAll, check, gives_bind, gives_withSymbols, gives_inScope, gives_pure]
    exact ⟨_, _, ⟨_, ⟨_, _, gives_checkOption ihInit, _, _, ⟨isCond, rfl⟩, _, _, ⟨isStep, rfl⟩, _,
      _, ⟨_, ihBody, rfl⟩, rfl, rfl⟩, rfl⟩, _, _, ih, rfl, rfl⟩

end Passes

end Stmt

/-! ## Accepted statements are annotated -/

namespace Site

variable {site : Site}

lemma SameDeclarations.extends {enclosing : Enclosing} {table later : SymbolTable}
    (same : SameDeclarations site (enclosing.site table)) (ext : table.Extends later) :
    SameDeclarations site (enclosing.site later) :=
  ⟨ext.overloads.trans same.overloads, ext.structs.trans same.structs⟩

lemma SameDeclarations.pushScope {enclosing : Enclosing} {table : SymbolTable}
    (same : SameDeclarations site (enclosing.site table)) :
    SameDeclarations site (enclosing.site table.pushScope) :=
  ⟨same.overloads, same.structs⟩

lemma requireInitializer_eq_ok {decl : Ty} {init : Expr} {result : Unit} :
    site.requireInitializer name decl init = .ok result ↔ init.ty.convertsTo decl := by
  unfold requireInitializer
  split <;> simp_all

lemma requireBool_eq_ok {cond : Expr} {result : Unit} :
    site.requireBool cond = .ok result ↔ cond.ty = Ty.bool := by
  unfold requireBool
  split <;> simp_all

lemma isCondition_of_condition (same : SameDeclarations site site') {cond ann : Expr}
    (chk : site'.condition cond = .ok ann) : Stmt.IsCondition site site'.symbols.lookup ann := by
  simp only [Site.condition, bind_eq_ok, pure_eq_ok, requireBool_eq_ok] at chk
  obtain ⟨inf, isInf, _, isBool, rfl⟩ := chk
  exact ⟨Expr.isAnnotatedUnder_of_infer same isInf, isBool⟩

lemma annotated_of_initializer (same : SameDeclarations site site') {decl : Ty}
    {init init' : Option Expr} (chk : site'.initializer name decl init = .ok init')
    (mem : e ∈ init') : e.IsAnnotatedUnder site site'.symbols.lookup ∧ e.ty.convertsTo decl := by
  cases init with
  | none =>
    cases chk
    cases mem
  | some init =>
    simp only [initializer, bind_eq_ok, pure_eq_ok, requireInitializer_eq_ok] at chk
    obtain ⟨inf, isInf, _, conv, rfl⟩ := chk
    cases mem
    exact ⟨Expr.isAnnotatedUnder_of_infer same isInf, conv⟩

end Site

namespace Stmt

section Annotated

variable {site : Site} {enclosing : Enclosing} {table inner last : SymbolTable} {ss₀ ss : List Stmt}
  {result : Ty}

lemma mem_of_mapM_eq_ok {ε α β : Type} {f : α → Except ε β} {given : Option α} {result : Option β}
    (mapped : given.mapM f = .ok result) {b : β} (mem : b ∈ result) : ∃ a, f a = .ok b := by
  cases given with
  | none =>
    cases mapped
    cases mem
  | some a =>
    obtain ⟨b', found, rfl⟩ := map_eq_ok.mp mapped
    cases mem
    exact ⟨a, found⟩

/-- A statement that passes is annotated and declares nothing. -/
lemma PassesAlone.annotated {s₀ s : Stmt} (passes : PassesAlone enclosing site' s₀ s)
    (same : site.SameDeclarations site') :
    s.declares = id ∧ s.IsAnnotated site enclosing.result site'.symbols.lookup := by
  cases passes with
  | eval inf => exact ⟨rfl, Expr.isAnnotatedUnder_of_infer same inf⟩
  | result inf conv => exact ⟨rfl, Expr.isAnnotatedUnder_of_infer same inf, conv⟩
  | noResult isVoid => exact ⟨rfl, isVoid⟩
  | leave | next => exact ⟨rfl, trivial⟩

lemma allAnnotated_toList {nms : Names} {s : Option Stmt}
    (ann : AllAnnotated site result nms s.toList) : OptionAnnotated site result nms s := by
  cases s with
  | none => trivial
  | some s => exact ann.1

/-- From the one table to the other the statements are annotated, and their declarations are added. -/
structure Leads (site : Site) (result : Ty) (table : SymbolTable) (ss : List Stmt)
    (last : SymbolTable) : Prop where
  extended : table.Extends last
  lookup : last.lookup = ss.foldl (fun names s => s.declares names) table.lookup
  annotated : AllAnnotated site result table.lookup ss

/-- Statements in a scope of their own. -/
lemma Leads.inScope (ins : Leads site result table.pushScope ss inner) (wf : table.WellFormed) :
    table.Keeps inner.popScope ∧ AllAnnotated site result table.lookup ss := by
  refine ⟨ins.extended.keeps_popScope wf, ?_⟩
  rw [← lookup_pushScope wf]
  exact ins.annotated

/-- A statement that leaves the names as they are. -/
lemma Leads.cons {s : Stmt} (rest : Leads site result inner ss last) (keeps : table.Keeps inner)
    (declaresNothing : s.declares = id) (own : s.IsAnnotated site result table.lookup) :
    Leads site result table (s :: ss) last := by
  obtain ⟨ext, lookup, ann⟩ := rest
  rw [keeps.lookup] at lookup ann
  refine ⟨keeps.extends_.trans ext, ?_, own, ?_⟩
  · rw [lookup, List.foldl_cons, declaresNothing, id]
  · rwa [declaresNothing]

/-- Accepted statements are annotated. -/
lemma Passes.leads (passes : Passes enclosing table ss₀ ss last) (wf : table.WellFormed)
    (same : site.SameDeclarations (enclosing.site table)) :
    Leads site enclosing.result table ss last := by
  induction passes with
  | done => exact ⟨.refl wf, rfl, trivial⟩
  | alone given _ ih =>
    obtain ⟨declaresNothing, own⟩ := given.annotated same
    exact (ih wf same).cons (.refl wf) declaresNothing own
  | @declare table _ name ty init init' _ _ declb initialized _ ih =>
    have added := extends_declare wf name (table.resolve ty)
    have decl : (table.declare name (table.resolve ty)).2.lookup
        = Names.declare table.lookup name (table.resolve ty) :=
      funext fun oth => lookup_declare wf name oth _
    obtain ⟨ext, lookup, ann⟩ := ih added.wellFormed (same.extends added)
    rw [decl] at lookup ann
    refine ⟨added.trans ext, lookup, ⟨declb, fun e mem => ?_⟩, ann⟩
    exact Site.annotated_of_initializer same initialized mem
  | block _ _ ihBody ih =>
    obtain ⟨keeps, body⟩ := (ihBody (wellFormed_pushScope wf) same.pushScope).inScope wf
    exact (ih keeps.extends_.wellFormed (same.extends keeps.extends_)).cons keeps rfl body
  | branch isCond _ _ _ ihA ihR ih =>
    obtain ⟨fst, acc⟩ := (ihA (wellFormed_pushScope wf) same.pushScope).inScope wf
    have wf' := fst.extends_.wellFormed
    have same' := same.extends fst.extends_
    obtain ⟨snd, rejd⟩ := (ihR (wellFormed_pushScope wf') same'.pushScope).inScope wf'
    rw [fst.lookup] at rejd
    exact (ih snd.extends_.wellFormed (same'.extends snd.extends_)).cons (fst.trans snd)
      rfl ⟨Site.isCondition_of_condition same isCond, acc, rejd⟩
  | @loop table header _ _ _ init' _ _ _ _ _ _ _ _ _ isCond isStep _ _ ihInit ihBody ih =>
    obtain ⟨opn, lookup, ann⟩ := ihInit (wellFormed_pushScope wf) same.pushScope
    rw [lookup_pushScope wf] at lookup ann
    have wf' := opn.wellFormed
    have same' := same.pushScope.extends opn
    obtain ⟨keeps, body⟩ := (ihBody (wellFormed_pushScope wf') same'.pushScope).inScope wf'
    have closed := (opn.trans keeps.extends_).keeps_popScope wf
    have nms : header.lookup = init'.elim table.lookup (·.declares table.lookup) := by
      rw [lookup]
      cases init' <;> rfl
    refine (ih closed.extends_.wellFormed (same.extends closed.extends_)).cons closed rfl
      ⟨allAnnotated_toList ann, fun e mem => ?_, fun e mem => ?_, nms ▸ body⟩
    · obtain ⟨given, chk⟩ := mem_of_mapM_eq_ok isCond mem
      exact nms ▸ Site.isCondition_of_condition same' chk
    · obtain ⟨given, chk⟩ := mem_of_mapM_eq_ok isStep mem
      exact nms ▸ Expr.isAnnotatedUnder_of_infer same' chk

end Annotated

end Stmt

/-! ## Functions -/

namespace FunctionDef

variable {f f' : FunctionDef} {symbols after : SymbolTable}

/-- Where the body of an annotated function starts: its parameters are declared in a scope of their
own. -/
def entry (f : FunctionDef) (symbols : SymbolTable) : Site :=
  ⟨symbols.pushScope.declareAll (f.parameters.map fun p => (p.name, p.ty)), some f.name⟩

/-- A check of a function is a check of its body between its parameters and the end of its scope. -/
lemma gives_check : f.check.Gives symbols f' after ↔
      ∃ inner, Stmt.Passes ⟨f.name, (symbols.overloadOf f).result⟩ (symbols.pushScope.declareAll
            ((symbols.overloadOf f).parameters.map fun p => (p.name, p.ty))) f.body f'.body inner
        ∧ inner.popScope = after ∧ f'.name = f.name
        ∧ symbols.overloadOf f = ⟨f'.parameters, f'.result⟩ := by
  simp only [← Stmt.gives_checkAll]
  constructor
  · rintro ⟨chk, rfl⟩
    obtain ⟨body, acc, rfl⟩ := map_eq_ok.mp chk
    exact ⟨_, ⟨acc, rfl⟩, rfl, rfl, rfl⟩
  · obtain ⟨name, ps, result, body⟩ := f'
    rintro ⟨inner, ⟨acc, rfl⟩, rfl, rfl, form⟩
    refine ⟨map_eq_ok.mpr ⟨body, acc, ?_⟩, rfl⟩
    rw [form]

/-- The body of an accepted function is annotated, and its names are gone afterwards. -/
lemma check_checked (wf : symbols.WellFormed) (gives : f.check.Gives symbols f' after) :
    symbols.Keeps after
      ∧ Stmt.AllAnnotated (f'.entry symbols) f'.result (f'.entry symbols).symbols.lookup
        f'.body := by
  obtain ⟨inner, passes, rfl, name, form⟩ := gives_check.mp gives
  rw [form, ← name] at passes
  have ps := extends_declareAll (wellFormed_pushScope wf)
    (f'.parameters.map fun p => (p.name, p.ty))
  have leads := passes.leads ps.wellFormed (.refl _)
  exact ⟨(ps.trans leads.extended).keeps_popScope wf, leads.annotated⟩

end FunctionDef

end ShaderAlgebra
