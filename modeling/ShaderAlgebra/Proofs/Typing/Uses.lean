import ShaderAlgebra.Proofs.Typing.Declarations

/-!
# Uses of names

Which names an expression uses, and what they mean where the expression stands. A scope is written
down with everything that is declared in it at some time, and with how much of that is declared by
now: a name means the last declaration of it in the innermost scope that has one by now (`Means`).
`Stmt.positions` gives the expressions of a statement with the scopes around them.

A statement leaves a name free if it uses it and does not declare it before (`Stmt.free`). What an
annotated statement leaves free is known around it, with the type that the statement says
(`Stmt.knows_of_mem_free`).
-/

namespace ShaderAlgebra

open List Option

/-- A variable with its type, or a function, which has no type here. -/
structure Symbol where
  name : String
  ty : Option Ty
deriving DecidableEq, Repr

variable {u : Symbol} {names : Names} {e : Expr}

namespace Symbol

/-- Whether two symbols have one name and are both variables or both functions. -/
def isAlike (s u : Symbol) : Bool := s.name == u.name && s.ty.isSome == u.ty.isSome

def isBoundBy (u : Symbol) (declared : List Symbol) : Bool := declared.any (·.isAlike u)

lemma isAlike_refl (u : Symbol) : u.isAlike u := by simp [isAlike]

lemma isBoundBy_eq_false {decl : List Symbol} :
    u.isBoundBy decl = false ↔ ∀ s ∈ decl, s.isAlike u = false := by
  simp [isBoundBy]

end Symbol

/-! ## The symbols of an expression -/

namespace Expr

/-- The declared function that the root calls. Constructors and built-in functions are none. -/
def callee? : Expr → Option String
  | .call function _ ty =>
    if (Ty.ofName? function).isSome || (Builtin.ofName? function).isSome then none
    else
      match ty with
      | .struct name _ => if name = function then none else some function
      | _ => some function
  | _ => none

/-- What the root uses. -/
def use? : Expr → Option Symbol
  | .ident name ty => some ⟨name, some ty⟩
  | e => e.callee?.map (⟨·, none⟩)

/-- The variables and functions that an expression uses. -/
def uses (e : Expr) : List Symbol := e.nodes.filterMap use?

lemma mem_uses : u ∈ e.uses ↔ ∃ s, Within s e ∧ s.use? = some u := by
  simp [uses, mem_nodes]

lemma mem_uses_of_within {s : Expr} (ins : Within s e) (used : u ∈ s.uses) : u ∈ e.uses := by
  obtain ⟨node, inner, own⟩ := mem_uses.mp used
  exact mem_uses.mpr ⟨node, inner.trans ins, own⟩

/-- The root uses a variable of its type, or it calls a function. -/
lemma use?_eq_some (used : e.use? = some u) : (∃ name ty, e = .ident name ty ∧ u = ⟨name, some ty⟩)
      ∨ ∃ name, e.callee? = some name ∧ u = ⟨name, none⟩ := by
  cases e with
  | ident name ty =>
    cases used
    exact .inl ⟨name, ty, rfl, rfl⟩
  | _ =>
    simp only [use?, map_eq_some_iff] at used
    obtain ⟨name, called, rfl⟩ := used
    exact .inr ⟨name, called, rfl⟩

end Expr

/-! ## Scopes -/

/-- What is declared in a scope at some time, in order, and how much of it is declared by now. -/
structure Scope where
  symbols : List Symbol
  count : Nat

/-- The scope has the symbol at a place, and it is declared by now. Functions are from the start. -/
def Scope.Has (scope : Scope) (i : Nat) (s : Symbol) : Prop :=
  scope.symbols[i]? = some s ∧ (s.ty = none ∨ i < scope.count)

/-- What a symbol means in nested scopes, the innermost first: the scope that it is declared in, and
its place there. -/
inductive Means : List Scope → Symbol → Nat × Nat → Prop
  | here {scope scopes u i} : scope.Has i u →
    (∀ k s, i < k → scope.Has k s → s.isAlike u = false) → Means (scope :: scopes) u (0, i)
  | outward {scope scopes u depth i} : (∀ k s, scope.Has k s → s.isAlike u = false) →
    Means scopes u (depth, i) → Means (scope :: scopes) u (depth + 1, i)

/-- A symbol has at most one meaning. -/
lemma Means.unique {scopes : List Scope} {place place' : Nat × Nat} (means : Means scopes u place)
    (means' : Means scopes u place') : place = place' := by
  have notUnlike (u : Symbol) : u.isAlike u ≠ false := by simp [Symbol.isAlike_refl]
  induction means generalizing place' with
  | here has later =>
    cases means' with
    | here has' later' =>
      rcases Nat.lt_trichotomy _ _ with below | same | above
      · exact absurd (later _ _ below has') (notUnlike _)
      · rw [same]
      · exact absurd (later' _ _ above has) (notUnlike _)
    | outward unk _ => exact absurd (unk _ _ has) (notUnlike _)
  | outward unk _ ih =>
    cases means' with
    | here has' _ => exact absurd (unk _ _ has') (notUnlike _)
    | outward _ meansOuter =>
      obtain ⟨rfl, rfl⟩ := Prod.mk.inj (ih meansOuter)
      rfl

/-- An expression, or nothing, with the scopes around it. -/
structure Position where
  scopes : List Scope
  expr : Option Expr

def Position.uses (p : Position) : List Symbol := p.expr.toList.flatMap Expr.uses

namespace Stmt

/-- What a statement declares in the scope that it stands in. -/
def declared : Stmt → List Symbol
  | .declare name ty _ => [⟨name, some ty⟩]
  | _ => []

def declaredOfOption (s : Option Stmt) : List Symbol := s.toList.flatMap declared

def declaredOfAll (ss : List Stmt) : List Symbol := ss.flatMap declared

mutual

/-- The expressions of a statement, each where it stands. The statement is in a scope of `own`
symbols, of which `count` are declared before it. -/
def positions (outer : List Scope) (own : List Symbol) (count : Nat) : Stmt → List Position
  | .declare _ _ init => [⟨⟨own, count⟩ :: outer, init⟩]
  | .eval expr => [⟨⟨own, count⟩ :: outer, some expr⟩]
  | .ret value => value.toList.map fun e => ⟨⟨own, count⟩ :: outer, some e⟩
  | .branch condition accept reject =>
    let here := ⟨own, count⟩ :: outer
    ⟨here, some condition⟩ :: (positionsOfAll here (declaredOfAll accept) 0 accept
      ++ positionsOfAll here (declaredOfAll reject) 0 reject)
  | .loop init condition step body =>
    let here := ⟨own, count⟩ :: outer
    let header := declaredOfOption init
    let inside := ⟨header, header.length⟩ :: here
    positionsOfOption here header 0 init
      ++ ((condition.toList ++ step.toList).map fun e => ⟨inside, some e⟩)
      ++ positionsOfAll inside (declaredOfAll body) 0 body
  | .block body => positionsOfAll (⟨own, count⟩ :: outer) (declaredOfAll body) 0 body
  | .leave | .next => []

def positionsOfOption (outer : List Scope) (own : List Symbol) (count : Nat) :
    Option Stmt → List Position
  | none => []
  | some s => positions outer own count s

def positionsOfAll (outer : List Scope) (own : List Symbol) (count : Nat) :
    List Stmt → List Position
  | [] => []
  | s :: ss =>
    positions outer own count s ++ positionsOfAll outer own (count + s.declared.length) ss

end

/-! ## Free symbols -/

mutual

/-- The symbols that a statement uses and does not declare before. -/
def free : Stmt → List Symbol
  | .declare _ _ init => init.toList.flatMap Expr.uses
  | .eval expr => expr.uses
  | .ret value => value.toList.flatMap Expr.uses
  | .branch condition accept reject => condition.uses ++ freeOfAll accept ++ freeOfAll reject
  | .loop init condition step body =>
    freeOfOption init
      ++ ((condition.toList ++ step.toList).flatMap Expr.uses ++ freeOfAll body).filter
        (!·.isBoundBy (declaredOfOption init))
  | .block body => freeOfAll body
  | .leave | .next => []

def freeOfOption : Option Stmt → List Symbol
  | none => []
  | some s => free s

def freeOfAll : List Stmt → List Symbol
  | [] => []
  | s :: ss => free s ++ (freeOfAll ss).filter (!·.isBoundBy s.declared)

end

end Stmt

/-- The declarations of a scope, and the symbols that the code in it uses from outside. -/
structure Block where
  declared : List Symbol
  free : List Symbol

namespace Stmt

/-- The block of statements that have a scope of their own. -/
def blockOf (ss : List Stmt) : Block := ⟨declaredOfAll ss, freeOfAll ss⟩

mutual

/-- The blocks inside of a statement. The header of a loop is one, and its body another. -/
def blocks : Stmt → List Block
  | .branch _ accept reject =>
    (blockOf accept :: blocksOfAll accept) ++ (blockOf reject :: blocksOfAll reject)
  | .loop init condition step body =>
    (⟨declaredOfOption init, free (.loop init condition step body)⟩ :: blocksOfOption init)
      ++ (blockOf body :: blocksOfAll body)
  | .block body => blockOf body :: blocksOfAll body
  | .declare .. | .eval _ | .ret _ | .leave | .next => []

def blocksOfOption : Option Stmt → List Block
  | none => []
  | some s => blocks s

def blocksOfAll : List Stmt → List Block
  | [] => []
  | s :: ss => blocks s ++ blocksOfAll ss

end

end Stmt

/-! ## Names and symbols -/

/-- The names after the declaration of variables. -/
def Names.declareAll (names : Names) (symbols : List Symbol) : Names :=
  symbols.foldl (fun names s => s.ty.elim names (names.declare s.name)) names

/-- A variable that is known after declarations is the last of its name among them, or it is none of
them and was known before. -/
lemma Names.declareAll_eq_some {syms : List Symbol} {ty : Ty} (isVar : u.ty = some ty)
    (found : names.declareAll syms u.name = some ty) :
    (∃ i, syms[i]? = some u
        ∧ ∀ (k : Nat) (s : Symbol), i < k → syms[k]? = some s → s.isAlike u = false)
      ∨ u.isBoundBy syms = false ∧ names u.name = some ty := by
  induction syms generalizing names with
  | nil => exact .inr ⟨rfl, found⟩
  | cons s rest ih =>
    rcases ih found with ⟨i, isLast, later⟩ | ⟨unbound, found⟩
    · refine .inl ⟨i + 1, isLast, fun k s' below at_ => ?_⟩
      obtain ⟨k, rfl⟩ : ∃ k', k = k' + 1 := ⟨k - 1, by omega⟩
      exact later k s' (by omega) at_
    · obtain ⟨name, decl⟩ := s
      rw [Symbol.isBoundBy_eq_false] at unbound ⊢
      by_cases alike : name = u.name ∧ decl.isSome
      · obtain ⟨rfl, isSome⟩ := alike
        obtain ⟨decl, rfl⟩ := isSome_iff_exists.mp isSome
        have same : decl = ty := by simpa [declare] using found
        refine .inl ⟨0, ?_, fun k s' below at_ => ?_⟩
        · rw [getElem?_cons_zero, same, ← isVar]
        · obtain ⟨k, rfl⟩ : ∃ k', k = k' + 1 := ⟨k - 1, by omega⟩
          exact unbound s' (mem_of_getElem? at_)
      · have unlike : (⟨name, decl⟩ : Symbol).isAlike u = false := by
          simpa [Symbol.isAlike, isVar] using alike
        refine .inr ⟨forall_mem_cons.mpr ⟨unlike, unbound⟩, ?_⟩
        cases decl with
        | none => exact found
        | some decl =>
          have oth : u.name ≠ name := fun same => alike ⟨same.symm, rfl⟩
          simpa [declare, oth] using found

namespace Stmt

lemma declares_eq (s : Stmt) (names : Names) : s.declares names = names.declareAll s.declared := by
  cases s <;> rfl

lemma declares_option_eq (s : Option Stmt) (names : Names) :
    s.elim names (fun s => s.declares names) = names.declareAll (declaredOfOption s) := by
  cases s with
  | none => rfl
  | some s =>
    rw [declaredOfOption, toList_some, flatMap_singleton]
    exact declares_eq s names

end Stmt

/-! ## Free symbols are known -/

namespace SymbolTable

/-- Every struct is known under its own name. -/
def NamesStructs (table : SymbolTable) : Prop :=
  ∀ name ty, table.structType? name = some ty → ∃ members, ty = .struct name members

lemma NamesStructs.congr {tbl oth : SymbolTable} (named : tbl.NamesStructs)
    (same : oth.structs = tbl.structs) : oth.NamesStructs := by
  intro name ty found
  exact named name ty (by rwa [structType?, ← same])

lemma namesStructs_ofShader (sh : Shader) : (ofShader sh).NamesStructs := by
  have all (sts : List StructDef) (tbl : SymbolTable) (named : tbl.NamesStructs) :
      (sts.foldl declareStruct tbl).NamesStructs := by
    induction sts generalizing tbl with
    | nil => exact named
    | cons s sts ih =>
      refine ih _ fun name ty found => ?_
      rw [structType?, declareStruct, Bindings.get?_set] at found
      split at found
      · next same =>
        obtain rfl := Option.some.inj found
        rw [same, StructDef.ty, resolve]
        split
        · cases known : tbl.structType? s.name with
          | none => exact ⟨s.members, rfl⟩
          | some ty => exact named s.name ty known
        · exact ⟨_, rfl⟩
      · exact named name ty found
  refine (all sh.structs .empty ?_).congr structs_ofShader
  intro name ty found
  cases found

end SymbolTable

/-- The symbol is known: a variable by the names, with its type, and a function by the site. -/
def Site.Knows (site : Site) (names : Names) (u : Symbol) : Prop :=
  match u.ty with
  | some ty => names u.name = some ty
  | none => site.symbols.overloads u.name ≠ []

/-- A call of a declared function needs a form of it. -/
lemma Expr.overloads_of_callee {site : Site} (named : site.symbols.NamesStructs) {name : String}
    (fits : site.Fits e) (called : e.callee? = some name) : site.symbols.overloads name ≠ [] := by
  cases e with
  | call fn args ty =>
    simp only [callee?] at called
    split at called
    · cases called
    · next decl =>
      simp only [Bool.or_eq_true, not_or, isSome_iff_ne_none, not_not] at decl
      obtain ⟨notTy, notBi⟩ := decl
      simp only [Site.Fits, Site.callType_eq_ok, notTy, notBi] at fits
      cases isSt : site.symbols.structType? fn with
      | some struct =>
        obtain ⟨mems, rfl⟩ := named fn struct isSt
        rw [isSt] at fits
        obtain ⟨-, rfl⟩ := fits
        simp at called
      | none =>
        have same : fn = name := by
          split at called
          · split at called <;> cases called
            rfl
          · cases called
            rfl
        subst same
        rw [isSt] at fits
        obtain ⟨form, found, -⟩ := fits
        intro empty
        simp [Site.overloadFor, empty] at found
  | _ => cases called

lemma Expr.knows_of_mem_uses {site : Site} (named : site.symbols.NamesStructs)
    (ann : e.IsAnnotatedUnder site names) : ∀ u ∈ e.uses, site.Knows names u := by
  intro u used
  obtain ⟨s, ins, own⟩ := mem_uses.mp used
  have fits := ann s ins
  rcases use?_eq_some own with ⟨name, ty, rfl, rfl⟩ | ⟨name, called, rfl⟩
  · exact fits
  · cases s with
    | call fn args ty =>
      have fitsCall : site.Fits (.call fn args ty) := fits
      exact overloads_of_callee named fitsCall called
    | _ => cases called

namespace Stmt

section Free

variable {site : Site} {res : Ty}

/-- What is known after declarations, if they declare something else, is known before them. -/
lemma knows_of_declareAll {syms : List Symbol} (known : site.Knows (names.declareAll syms) u)
    (unbound : u.isBoundBy syms = false) : site.Knows names u := by
  cases isVar : u.ty with
  | none => simpa [Site.Knows, isVar] using known
  | some ty =>
    simp only [Site.Knows, isVar] at known ⊢
    rcases Names.declareAll_eq_some isVar known with ⟨i, isLast, -⟩ | ⟨-, found⟩
    · have alike := Symbol.isBoundBy_eq_false.mp unbound u (mem_of_getElem? isLast)
      rw [Symbol.isAlike_refl] at alike
      cases alike
    · exact found

/-- What the condition and the step of a loop use is known in them. -/
lemma knows_of_mem_header (named : site.symbols.NamesStructs) {cond step : Option Expr}
    (condAnn : ∀ e ∈ cond, IsCondition site names e)
    (stepAnn : ∀ e ∈ step, e.IsAnnotatedUnder site names) :
    ∀ u ∈ (cond.toList ++ step.toList).flatMap Expr.uses, site.Knows names u := by
  intro u mem
  obtain ⟨e, isPart, used⟩ := mem_flatMap.mp mem
  rcases mem_append.mp isPart with isCond | isStep
  · exact Expr.knows_of_mem_uses named (condAnn e (mem_toList.mp isCond)).1 u used
  · exact Expr.knows_of_mem_uses named (stepAnn e (mem_toList.mp isStep)) u used

mutual

/-- What an annotated statement leaves free is known around it. -/
lemma knows_of_mem_free (named : site.symbols.NamesStructs) : (s : Stmt) → ∀ {names : Names},
    s.IsAnnotated site res names → ∀ u ∈ s.free, site.Knows names u
  | .declare name ty init, _, ann, u, mem => by
    obtain ⟨e, isInit, used⟩ := mem_flatMap.mp mem
    exact Expr.knows_of_mem_uses named (ann.2 e (mem_toList.mp isInit)).1 u used
  | .eval e, _, ann, u, mem => Expr.knows_of_mem_uses named ann u mem
  | .ret none, _, _, _, mem => by cases mem
  | .ret (some e), _, ann, u, mem => by
    simp only [free, toList_some, flatMap_singleton] at mem
    exact Expr.knows_of_mem_uses named ann.1 u mem
  | .branch cond acc rej, _, ann, u, mem => by
    obtain ⟨isCond, accAnn, rejAnn⟩ := ann
    simp only [free, mem_append] at mem
    rcases mem with (inCond | inAcc) | inRej
    · exact Expr.knows_of_mem_uses named isCond.1 u inCond
    · exact knows_of_mem_freeOfAll named acc accAnn u inAcc
    · exact knows_of_mem_freeOfAll named rej rejAnn u inRej
  | .loop init cond step body, names, ann, u, mem => by
    obtain ⟨initAnn, condAnn, stepAnn, bodyAnn⟩ := ann
    rw [declares_option_eq] at condAnn stepAnn bodyAnn
    simp only [free, mem_append, mem_filter, Bool.not_eq_true'] at mem
    rcases mem with inInit | ⟨ins, unbound⟩
    · exact knows_of_mem_freeOfOption named init initAnn u inInit
    · refine knows_of_declareAll ?_ unbound
      rcases ins with inHeader | inBody
      · exact knows_of_mem_header named condAnn stepAnn u inHeader
      · exact knows_of_mem_freeOfAll named body bodyAnn u inBody
  | .block body, _, ann, u, mem => knows_of_mem_freeOfAll named body ann u mem
  | .leave, _, _, _, mem | .next, _, _, _, mem => by cases mem

lemma knows_of_mem_freeOfOption (named : site.symbols.NamesStructs) : (s : Option Stmt) →
    ∀ {names : Names}, OptionAnnotated site res names s →
    ∀ u ∈ freeOfOption s, site.Knows names u
  | none, _, _, _, mem => by cases mem
  | some s, _, ann, u, mem => knows_of_mem_free named s ann u mem

lemma knows_of_mem_freeOfAll (named : site.symbols.NamesStructs) : (ss : List Stmt) →
    ∀ {names : Names}, AllAnnotated site res names ss →
    ∀ u ∈ freeOfAll ss, site.Knows names u
  | [], _, _, _, mem => by cases mem
  | s :: ss, names, ann, u, mem => by
    simp only [freeOfAll, mem_append, mem_filter, Bool.not_eq_true'] at mem
    rcases mem with inFirst | ⟨inRest, unbound⟩
    · exact knows_of_mem_free named s ann.1 u inFirst
    · have known := knows_of_mem_freeOfAll named ss ann.2 u inRest
      rw [declares_eq] at known
      exact knows_of_declareAll known unbound

end

end Free

end Stmt

end ShaderAlgebra
