import ShaderAlgebra.Proofs.Typing.Uses

/-!
# Names of accepted shaders

Whatever an accepted shader uses has one meaning where it is used (`Shader.existsUnique_means`): a
declaration with the type that the shader is annotated with. Scopes explain what is known if every
known symbol has a meaning in them (`Site.Explains`). That holds at the start of a shader, a scope
that is entered keeps it, and so does a declaration. So every expression stands in scopes that
explain what it is annotated with (`Site.Accepts`).
-/

namespace ShaderAlgebra

open List SymbolTable

/-! ## Scopes that explain what is known -/

/-- Every known symbol has a meaning in the scopes. -/
def Site.Explains (site : Site) (names : Names) (scopes : List Scope) : Prop :=
  ∀ u, site.Knows names u → ∃ place, Means scopes u place

section Explains

variable {site : Site} {names : Names} {outer : List Scope} {own pre mid post : List Symbol}

/-- A scope that has declared nothing hides nothing. -/
lemma Site.Explains.enter (expl : site.Explains names outer)
    (areVars : ∀ s ∈ own, s.ty ≠ none) : site.Explains names (⟨own, 0⟩ :: outer) := by
  intro u known
  obtain ⟨⟨depth, i⟩, means⟩ := expl u known
  refine ⟨(depth + 1, i), .outward (fun k s has => ?_) means⟩
  rcases has.2 with isFn | decl
  · exact absurd isFn (areVars s (mem_of_getElem? has.1))
  · exact absurd decl (Nat.not_lt_zero k)

/-- Declarations of other symbols do not change what a symbol means. -/
lemma Means.after {u : Symbol} {place : Nat × Nat}
    (oth : ∀ s ∈ mid, s.ty ≠ none → s.isAlike u = false)
    (means : Means (⟨pre ++ mid ++ post, pre.length⟩ :: outer) u place) :
    Means (⟨pre ++ mid ++ post, (pre ++ mid).length⟩ :: outer) u place := by
  have before (k : Nat) (s : Symbol)
      (has : Scope.Has ⟨pre ++ mid ++ post, (pre ++ mid).length⟩ k s) :
      Scope.Has ⟨pre ++ mid ++ post, pre.length⟩ k s ∨ s.isAlike u = false := by
    obtain ⟨found, isFn | decl⟩ := has
    · exact .inl ⟨found, .inl isFn⟩
    · by_cases isFn : s.ty = none
      · exact .inl ⟨found, .inl isFn⟩
      · by_cases early : k < pre.length
        · exact .inl ⟨found, .inr early⟩
        · exact .inr (oth s (by grind) isFn)
  cases means with
  | here has later =>
    refine .here ⟨has.1, has.2.imp_right fun decl => ?_⟩ fun k s after hasLater => ?_
    · rw [length_append]
      exact Nat.lt_add_right _ decl
    · exact (before k s hasLater).elim (later k s after) id
  | outward unk meansOuter =>
    exact .outward (fun k s has => (before k s has).elim (unk k s) id) meansOuter

/-- What is declared has a meaning then, and everything else has the one that it had. -/
lemma Site.Explains.declareAll
    (expl : site.Explains names (⟨pre ++ mid ++ post, pre.length⟩ :: outer)) :
    site.Explains (names.declareAll mid) (⟨pre ++ mid ++ post, (pre ++ mid).length⟩ :: outer) := by
  intro u known
  cases isVar : u.ty with
  | none =>
    obtain ⟨place, means⟩ := expl u (by simpa [Site.Knows, isVar] using known)
    refine ⟨place, means.after fun s _ oth => ?_⟩
    simp [Symbol.isAlike, isVar, Option.isSome_iff_ne_none.mpr oth]
  | some ty =>
    simp only [Site.Knows, isVar] at known
    rcases Names.declareAll_eq_some isVar known with ⟨i, found, later⟩ | ⟨unbound, found⟩
    · refine ⟨(0, pre.length + i), .here ⟨by grind, .inr (by grind)⟩ fun k s after has => ?_⟩
      obtain ⟨isAt, isFn | decl⟩ := has
      · simp [Symbol.isAlike, isVar, isFn]
      · have inMid : mid[k - pre.length]? = some s := by grind
        exact later _ s (by omega) inMid
    · obtain ⟨place, means⟩ := expl u (by simpa [Site.Knows, isVar] using found)
      exact ⟨place, means.after fun s mem _ => Symbol.isBoundBy_eq_false.mp unbound s mem⟩

/-- A scope that is entered, after its first declarations. -/
lemma Site.Explains.enterAfter (expl : site.Explains names outer) (isOwn : own = mid ++ post)
    (areVars : ∀ s ∈ own, s.ty ≠ none) :
    site.Explains (names.declareAll mid) (⟨own, mid.length⟩ :: outer) := by
  subst isOwn
  have entered : site.Explains names (⟨[] ++ mid ++ post, 0⟩ :: outer) := expl.enter areVars
  exact entered.declareAll

end Explains

/-- A place inside of given scopes. Its expression is annotated under names that the scopes around
it explain. -/
structure Site.Accepts (site : Site) (outer : List Scope) (p : Position) : Prop where
  inside : outer <:+ p.scopes
  annotated : ∃ names, site.Explains names p.scopes ∧ ∀ e ∈ p.expr, e.IsAnnotatedUnder site names

namespace Site.Accepts

variable {site : Site} {outer : List Scope} {scope : Scope} {p : Position}

lemma here {names : Names} (expl : site.Explains names (scope :: outer)) {e : Option Expr}
    (annotated : ∀ e' ∈ e, e'.IsAnnotatedUnder site names) :
    site.Accepts outer ⟨scope :: outer, e⟩ :=
  ⟨suffix_cons _ _, names, expl, annotated⟩

lemma of_expr {names : Names} (expl : site.Explains names (scope :: outer)) {e : Expr}
    (annotated : e.IsAnnotatedUnder site names) : site.Accepts outer ⟨scope :: outer, some e⟩ :=
  here expl fun _ same => Option.some.inj same ▸ annotated

lemma outward (accepts : site.Accepts (scope :: outer) p) : site.Accepts outer p :=
  ⟨(suffix_cons _ _).trans accepts.inside, accepts.annotated⟩

/-- What is used at the place has a meaning there. -/
lemma exists_means (accepts : site.Accepts outer p) (named : site.symbols.NamesStructs) :
    ∀ u ∈ p.uses, ∃ place, Means p.scopes u place := by
  intro u used
  obtain ⟨names, expl, annotated⟩ := accepts.annotated
  obtain ⟨e, isExpr, inExpr⟩ := mem_flatMap.mp used
  have isAnn := annotated e (Option.mem_toList.mp isExpr)
  exact expl u (Expr.knows_of_mem_uses named isAnn u inExpr)

end Site.Accepts

/-! ## Statements -/

namespace Stmt

lemma areVariables_declared (s : Stmt) : ∀ u ∈ s.declared, u.ty ≠ none := by
  cases s <;> simp [declared]

lemma areVariables_declaredOfOption (s : Option Stmt) : ∀ u ∈ declaredOfOption s, u.ty ≠ none := by
  intro u mem
  obtain ⟨s, -, decl⟩ := mem_flatMap.mp mem
  exact areVariables_declared s u decl

lemma areVariables_declaredOfAll (ss : List Stmt) : ∀ u ∈ declaredOfAll ss, u.ty ≠ none := by
  intro u mem
  obtain ⟨s, -, decl⟩ := mem_flatMap.mp mem
  exact areVariables_declared s u decl

section Accepts

variable {site : Site} {res : Ty}

mutual

/-- The places of an annotated statement. -/
lemma accepts_of_mem_positions : (s : Stmt) →
    ∀ {outer own cnt} {names : Names}, site.Explains names (⟨own, cnt⟩ :: outer) →
    s.IsAnnotated site res names → ∀ p ∈ s.positions outer own cnt, site.Accepts outer p
  | .declare name ty init, _, _, _, _, expl, annotated, p, mem => by
    obtain rfl := mem_singleton.mp mem
    exact Site.Accepts.here expl fun e isInit => (annotated.2 e isInit).1
  | .eval e, _, _, _, _, expl, annotated, p, mem => by
    obtain rfl := mem_singleton.mp mem
    exact .of_expr expl annotated
  | .ret none, _, _, _, _, _, _, _, mem => by cases mem
  | .ret (some e), _, _, _, _, expl, annotated, p, mem => by
    obtain rfl := mem_singleton.mp mem
    exact .of_expr expl annotated.1
  | .branch cond acc rej, _, _, _, _, expl, annotated, p, mem => by
    obtain ⟨isCond, accAnn, rejAnn⟩ := annotated
    simp only [positions, mem_cons, mem_append] at mem
    rcases mem with rfl | inAcc | inRej
    · exact .of_expr expl isCond.1
    · exact (accepts_of_mem_positionsOfAll acc [] rfl
        (expl.enter (areVariables_declaredOfAll acc)) accAnn p inAcc).outward
    · exact (accepts_of_mem_positionsOfAll rej [] rfl
        (expl.enter (areVariables_declaredOfAll rej)) rejAnn p inRej).outward
  | .loop init cond step body, _, _, _, names, expl, annotated, p, mem => by
    obtain ⟨initAnn, condAnn, stepAnn, bodyAnn⟩ := annotated
    rw [declares_option_eq] at condAnn stepAnn bodyAnn
    have ins := expl.enterAfter (append_nil _).symm (areVariables_declaredOfOption init)
    simp only [positions, mem_append, mem_map, Option.mem_toList] at mem
    rcases mem with (inInit | ⟨e, isPart, rfl⟩) | inBody
    · exact (accepts_of_mem_positionsOfOption init
        (expl.enter (areVariables_declaredOfOption init)) initAnn p inInit).outward
    · refine (Site.Accepts.of_expr ins ?_).outward
      exact isPart.elim (fun isCond => (condAnn e isCond).1) (stepAnn e)
    · exact (accepts_of_mem_positionsOfAll body [] rfl
        (ins.enter (areVariables_declaredOfAll body)) bodyAnn p inBody).outward.outward
  | .block body, _, _, _, _, expl, annotated, p, mem =>
    (accepts_of_mem_positionsOfAll body [] rfl
      (expl.enter (areVariables_declaredOfAll body)) annotated p mem).outward
  | .leave, _, _, _, _, _, _, _, mem | .next, _, _, _, _, _, _, _, mem => by cases mem

lemma accepts_of_mem_positionsOfOption : (s : Option Stmt) →
    ∀ {outer own cnt} {names : Names}, site.Explains names (⟨own, cnt⟩ :: outer) →
    OptionAnnotated site res names s →
    ∀ p ∈ positionsOfOption outer own cnt s, site.Accepts outer p
  | none, _, _, _, _, _, _, _, mem => by cases mem
  | some s, _, _, _, _, expl, annotated, p, mem =>
    accepts_of_mem_positions s expl annotated p mem

lemma accepts_of_mem_positionsOfAll : (ss : List Stmt) →
    (pre : List Symbol) → ∀ {outer} {own : List Symbol} {names : Names},
    own = pre ++ declaredOfAll ss → site.Explains names (⟨own, pre.length⟩ :: outer) →
    AllAnnotated site res names ss →
    ∀ p ∈ positionsOfAll outer own pre.length ss, site.Accepts outer p
  | [], _, _, _, _, _, _, _, _, mem => by cases mem
  | s :: ss, pre, outer, own, names, isOwn, expl, annotated, p, mem => by
    obtain rfl : own = pre ++ s.declared ++ declaredOfAll ss := by simpa [declaredOfAll] using isOwn
    rw [positionsOfAll, mem_append, ← length_append] at mem
    rcases mem with inFirst | inRest
    · exact accepts_of_mem_positions s expl annotated.1 p inFirst
    · have annRest := annotated.2
      rw [declares_eq] at annRest
      exact accepts_of_mem_positionsOfAll ss (pre ++ s.declared) rfl expl.declareAll
        annRest p inRest

end

end Accepts

end Stmt

/-! ## Items -/

namespace FunctionDef

/-- The symbols that a function starts with. -/
def parameterSymbols (f : FunctionDef) : List Symbol :=
  f.parameters.map fun p => ⟨p.name, some p.ty⟩

/-- The symbols in the scope of a function: its parameters and the variables of its body. -/
def symbols (f : FunctionDef) : List Symbol := f.parameterSymbols ++ Stmt.declaredOfAll f.body

def occurrences (outer : List Scope) (f : FunctionDef) : List Position :=
  Stmt.positionsOfAll outer f.symbols f.parameterSymbols.length f.body

lemma areVariables_symbols (f : FunctionDef) : ∀ s ∈ f.symbols, s.ty ≠ none := by
  refine forall_mem_append.mpr ⟨?_, Stmt.areVariables_declaredOfAll f.body⟩
  simp [parameterSymbols]

/-- The names at the start of the body. -/
lemma lookup_entry_eq {f : FunctionDef} {tbl : SymbolTable} (wf : tbl.WellFormed) :
    (f.entry tbl).symbols.lookup = Names.declareAll tbl.lookup f.parameterSymbols := by
  have all (ps : List Parameter) (tbl : SymbolTable) (wf : tbl.WellFormed) :
      (tbl.declareAll (ps.map fun p => (p.name, p.ty))).lookup
        = Names.declareAll tbl.lookup (ps.map fun p => ⟨p.name, some p.ty⟩) := by
    induction ps generalizing tbl with
    | nil => rfl
    | cons p ps ih =>
      have decl : (tbl.declare p.name p.ty).2.lookup = Names.declare tbl.lookup p.name p.ty := by
        funext other
        exact lookup_declare wf p.name other p.ty
      have rest := ih _ (wellFormed_declare wf p.name p.ty)
      rw [decl] at rest
      exact rest
  have entered := all f.parameters _ (wellFormed_pushScope wf)
  rwa [lookup_pushScope wf] at entered

end FunctionDef

namespace Item

/-- What an item declares for the shader. -/
def symbols : Item → List Symbol
  | .struct _ => []
  | .global g => [⟨g.name, some g.ty⟩]
  | .function f => [⟨f.name, none⟩]

/-- The expressions of an item of a shader that declares `all`, of which `count` are declared
before it. -/
def occurrences (all : List Symbol) (count : Nat) : Item → List Position
  | .struct _ => []
  | .global g => [⟨[⟨all, count⟩], g.init⟩]
  | .function f => f.occurrences [⟨all, count⟩]

/-- Whether an item is annotated under the names that are known before it. -/
def IsAnnotated (site : Site) (names : Names) : Item → Prop
  | .struct _ => True
  | .global g => ∀ e ∈ g.init, e.IsAnnotatedUnder site names
  | .function f =>
    Stmt.AllAnnotated site f.result (names.declareAll f.parameterSymbols) f.body

/-- What is given for each item and the number of symbols that are declared before it. -/
def collect {α : Type} (each : Nat → Item → List α) (count : Nat) : List Item → List α
  | [] => []
  | item :: items => each count item ++ collect each (count + item.symbols.length) items

lemma mem_collect {α : Type} {each : Nat → Item → List α} {cnt : Nat} {items : List Item}
    {a : α} (mem : a ∈ collect each cnt items) :
    ∃ before item after, items = before ++ item :: after
      ∧ a ∈ each (cnt + (before.flatMap symbols).length) item := by
  induction items generalizing cnt with
  | nil => cases mem
  | cons item items ih =>
    rcases mem_append.mp mem with own | inRest
    · exact ⟨[], item, items, rfl, own⟩
    · obtain ⟨before, later, after, rfl, inLater⟩ := ih inRest
      refine ⟨item :: before, later, after, rfl, ?_⟩
      simpa [Nat.add_assoc] using inLater

variable {item item' : Item} {items items' : List Item} {tbl next last : SymbolTable}

section

variable (wf : tbl.WellFormed) (chk : (item.check tbl).outcome = .ok (item', next))

include wf chk

/-- An accepted item is annotated under the names that are known before it. -/
lemma isAnnotated_of_check :
    ∃ site : Site, site.symbols.structs = tbl.structs ∧ site.symbols.functions = tbl.functions
      ∧ item'.IsAnnotated site tbl.lookup := by
  cases item with
  | struct decl =>
    cases chk
    exact ⟨⟨tbl, none⟩, rfl, rfl, trivial⟩
  | global decl =>
    obtain ⟨init, isInit, rfl, -⟩ := check_global_eq_ok.mp chk
    refine ⟨⟨tbl, none⟩, rfl, rfl, fun e own => ?_⟩
    cases isDeclared : decl.init with
    | none =>
      rw [isDeclared] at isInit
      cases isInit
      cases own
    | some e₀ =>
      rw [isDeclared] at isInit
      simp only [Site.initializer, bind_eq_ok, pure_eq_ok] at isInit
      obtain ⟨inf, isInf, _, -, rfl⟩ := isInit
      cases own
      exact Expr.isAnnotatedUnder_of_infer (.refl ⟨tbl, none⟩) isInf
  | function f =>
    obtain ⟨f', rfl, gives⟩ := check_function_eq_ok.mp chk
    have entered := extends_declareAll (wellFormed_pushScope wf)
      (f'.parameters.map fun p => (p.name, p.ty))
    have annotated := (FunctionDef.check_checked wf gives).2
    rw [FunctionDef.lookup_entry_eq wf] at annotated
    exact ⟨_, entered.structs, entered.functions, annotated⟩

/-- An accepted item declares its symbols. -/
lemma lookup_of_check : next.lookup = Names.declareAll tbl.lookup item'.symbols := by
  cases item with
  | struct decl =>
    cases chk
    rfl
  | global decl =>
    obtain ⟨init, -, rfl, rfl⟩ := check_global_eq_ok.mp chk
    funext other
    exact lookup_declare wf _ other _
  | function f =>
    obtain ⟨f', rfl, gives⟩ := check_function_eq_ok.mp chk
    exact (FunctionDef.check_checked wf gives).1.lookup

end

/-- Every accepted item is annotated under the names that the items before it declare. -/
lemma Checks.isAnnotated (checks : Checks tbl items items' last) (wf : tbl.WellFormed)
    {before after : List Item} (split : items' = before ++ item :: after) :
    ∃ site : Site, site.symbols.structs = tbl.structs ∧ site.symbols.functions = tbl.functions
      ∧ item.IsAnnotated site (Names.declareAll tbl.lookup (before.flatMap symbols)) := by
  induction checks generalizing before with
  | nil => simp at split
  | cons fst rest ih =>
    have ext := check_extends wf fst
    cases before with
    | nil =>
      obtain ⟨rfl, -⟩ := List.cons.inj split
      exact isAnnotated_of_check wf fst
    | cons earlier before =>
      obtain ⟨rfl, splitRest⟩ := List.cons.inj split
      obtain ⟨site, sts, fns, annotated⟩ := ih ext.wellFormed splitRest
      rw [lookup_of_check wf fst] at annotated
      refine ⟨site, sts.trans ext.structs, fns.trans ext.functions, ?_⟩
      rwa [flatMap_cons, Names.declareAll, foldl_append]

lemma accepts_of_mem_occurrences {site : Site} {names : Names} {all : List Symbol} {cnt : Nat}
    (expl : site.Explains names [⟨all, cnt⟩]) (annotated : item.IsAnnotated site names) :
    ∀ p ∈ item.occurrences all cnt, site.Accepts [⟨all, cnt⟩] p := by
  intro p mem
  cases item with
  | struct decl => cases mem
  | global g =>
    obtain rfl := mem_singleton.mp mem
    exact ⟨suffix_refl _, names, expl, annotated⟩
  | function f =>
    exact Stmt.accepts_of_mem_positionsOfAll f.body f.parameterSymbols rfl
      (expl.enterAfter rfl f.areVariables_symbols) annotated p mem

end Item

/-! ## Shaders -/

namespace Shader

/-- What a shader declares, in order. -/
def symbols (shader : Shader) : List Symbol := shader.items.flatMap Item.symbols

/-- The expressions of a shader, each where it stands. -/
def occurrences (shader : Shader) : List Position :=
  Item.collect (Item.occurrences shader.symbols) 0 shader.items

variable {shader annotated : Shader}

section

variable (inf : shader.infer.outcome = .ok annotated)

include inf

/-- Before any item is checked the functions of the shader are known, and nothing else. -/
lemma explains_start {site : Site}
    (fns : site.symbols.functions = (SymbolTable.ofShader shader).functions) :
    site.Explains (fun _ => none) [⟨annotated.symbols, 0⟩] := by
  intro u known
  obtain ⟨name, _ | ty⟩ := u
  · have forms : (SymbolTable.ofShader shader).overloads name ≠ [] := by
      simpa [Site.Knows, SymbolTable.overloads, fns] using known
    obtain ⟨f, mem, rfl⟩ := exists_function_of_overloads inf forms
    have decl : ⟨f.name, none⟩ ∈ annotated.symbols.reverse := by
      rw [mem_reverse]
      exact mem_flatMap.mpr ⟨_, mem_functions.mp mem, mem_singleton_self _⟩
    -- The last function of the name is meant.
    obtain ⟨later, earlier, syms, notLater⟩ := eq_append_cons_of_mem decl
    have split := reverse_eq_iff.mp syms
    refine ⟨(0, earlier.length), .here ⟨by simp [split], .inl rfl⟩ fun k s after has => ?_⟩
    by_contra alike
    obtain rfl : s = ⟨f.name, none⟩ := by
      obtain ⟨name, ty⟩ := s
      simp_all [Symbol.isAlike]
    refine notLater ?_
    have found := has.1
    grind
  · cases known

/-- An item of an accepted shader is annotated under names that the symbols before it explain. -/
lemma exists_isAnnotated
    {before after : List Item} {item : Item} (split : annotated.items = before ++ item :: after) :
    ∃ (site : Site) (names : Names), site.symbols.NamesStructs
      ∧ site.Explains names [⟨annotated.symbols, (before.flatMap Item.symbols).length⟩]
      ∧ item.IsAnnotated site names := by
  obtain ⟨last, checks⟩ := infer_eq_ok.mp inf
  obtain ⟨site, sts, fns, isAnn⟩ := checks.isAnnotated (wellFormed_ofShader shader) split
  have unk : (SymbolTable.ofShader shader).lookup = fun _ => none :=
    funext lookup_ofShader
  rw [unk] at isAnn
  have syms : annotated.symbols
      = [] ++ before.flatMap Item.symbols ++ (item :: after).flatMap Item.symbols := by
    rw [Shader.symbols, split, flatMap_append, nil_append]
  have start := explains_start inf fns
  rw [syms] at start ⊢
  exact ⟨site, _, (namesStructs_ofShader shader).congr sts, start.declareAll, isAnn⟩

/-- The expressions of an accepted shader stand in the scope of its symbols. -/
lemma accepts_of_mem_occurrences {p : Position} (mem : p ∈ annotated.occurrences) :
    ∃ (site : Site) (cnt : Nat), site.symbols.NamesStructs
      ∧ site.Accepts [⟨annotated.symbols, cnt⟩] p := by
  obtain ⟨before, item, after, split, own⟩ := Item.mem_collect mem
  obtain ⟨site, names, named, expl, isAnn⟩ := exists_isAnnotated inf split
  rw [Nat.zero_add] at own
  exact ⟨site, _, named, Item.accepts_of_mem_occurrences expl isAnn p own⟩

/-- Whatever an accepted shader uses has one meaning where it is used. -/
lemma existsUnique_means :
    ∀ p ∈ annotated.occurrences, ∀ u ∈ p.uses, ∃! place, Means p.scopes u place := by
  intro p mem u used
  obtain ⟨site, cnt, named, accepts⟩ := accepts_of_mem_occurrences inf mem
  obtain ⟨place, means⟩ := accepts.exists_means named u used
  exact ⟨place, means, fun _ means' => means'.unique means⟩

end

end Shader

end ShaderAlgebra
