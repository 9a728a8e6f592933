import ShaderAlgebra.Proofs.Typing.DeclaredTypes

/-!
# Checking what was checked

What a check accepted is accepted again, unchanged, by a check that knows at least as much
(`SymbolTable.Covers`): trees first, then statements, functions and the items of a shader
(`Stmt.Passes.again`, `FunctionDef.check_again`, `Item.check_again`).

The types of declarations are resolved when they are checked, so a second check must find nothing
left to resolve in them (`SymbolTable.Fixes`). It does if no struct was used before its declaration
(`SymbolTable.IsResolved`).
-/

namespace ShaderAlgebra

open List SymbolTable FunctionDef

/-! ## Tables that know more -/

namespace SymbolTable

/-- The larger table knows everything that the other one does, and the same of it. It may know
further names, and further functions of other names. -/
structure Covers (larger table : SymbolTable) : Prop where
  wellFormed : table.WellFormed
  largerWellFormed : larger.WellFormed
  structs : larger.structs = table.structs
  overloads : ∀ {name}, table.overloads name ≠ [] → larger.overloads name = table.overloads name
  lookup : ∀ {name ty}, table.lookup name = some ty → larger.lookup name = some ty

namespace Covers

variable {larger table last : SymbolTable}

lemma refl (wf : table.WellFormed) : Covers table table :=
  ⟨wf, wf, rfl, fun _ => rfl, fun found => found⟩

lemma trans (fst : Covers last larger) (snd : Covers larger table) : Covers last table where
  wellFormed := snd.wellFormed
  largerWellFormed := fst.largerWellFormed
  structs := fst.structs.trans snd.structs
  overloads known := by
    have same := snd.overloads known
    rw [← same, fst.overloads (by rwa [same])]
  lookup found := fst.lookup (snd.lookup found)

section

variable (covers : Covers larger table)

include covers

/-- Both tables may go on, if the names that they declare on the way stay covered. -/
lemma advance {larger' tbl' : SymbolTable}
    (ext : Extends table tbl') (ext' : Extends larger larger')
    (nms : ∀ {name ty}, tbl'.lookup name = some ty → larger'.lookup name = some ty) :
    Covers larger' tbl' where
  wellFormed := ext.wellFormed
  largerWellFormed := ext'.wellFormed
  structs := ext'.structs.trans (covers.structs.trans ext.structs.symm)
  overloads := by
    rw [ext.overloads, ext'.overloads]
    exact covers.overloads
  lookup := nms

lemma pushScope : Covers larger.pushScope table.pushScope where
  wellFormed := wellFormed_pushScope covers.wellFormed
  largerWellFormed := wellFormed_pushScope covers.largerWellFormed
  structs := covers.structs
  overloads := covers.overloads
  lookup := by
    rw [lookup_pushScope covers.wellFormed, lookup_pushScope covers.largerWellFormed]
    exact covers.lookup

lemma declare (name : String) (ty : Ty) :
    Covers (larger.declare name ty).2 (table.declare name ty).2 := by
  refine covers.advance (extends_declare covers.wellFormed name ty)
    (extends_declare covers.largerWellFormed name ty) fun {oth} _ found => ?_
  rw [lookup_declare covers.wellFormed] at found
  rw [lookup_declare covers.largerWellFormed]
  split
  · next same => rwa [if_pos same] at found
  · next differs =>
    rw [if_neg differs] at found
    exact covers.lookup found

lemma declareAll (decls : List (String × Ty)) :
    Covers (larger.declareAll decls) (table.declareAll decls) := by
  induction decls generalizing larger table with
  | nil => exact covers
  | cons decl rest ih => exact ih (covers.declare decl.1 decl.2)

lemma keeps {larger' tbl' : SymbolTable}
    (kept : Keeps table tbl') (kept' : Keeps larger larger') : Covers larger' tbl' := by
  refine covers.advance kept.extends_ kept'.extends_ ?_
  rw [kept.lookup, kept'.lookup]
  exact covers.lookup

lemma structType? : larger.structType? = table.structType? := by
  funext name
  rw [SymbolTable.structType?, SymbolTable.structType?, covers.structs]

end

end Covers

lemma Keeps.covers {table later : SymbolTable} (keeps : Keeps table later)
    (wf : table.WellFormed) : later.Covers table :=
  (Covers.refl wf).keeps (.refl wf) keeps

end SymbolTable

section Covers

variable {site site' : Site} (covered : site'.symbols.Covers site.symbols)

include covered

/-! ## Trees -/

/-- A node fits where more is known. -/
lemma Site.Fits.covers {e : Expr} (fits : site.Fits e) : site'.Fits e := by
  cases e with
  | ident name ty => exact covered.lookup fits
  | call fn args ty =>
    simp only [Fits, callType_eq_ok, covered.structType?] at fits ⊢
    split at fits
    · exact fits
    · exact fits
    · exact fits
    · obtain ⟨form, found, rest⟩ := fits
      refine ⟨form, ?_, rest⟩
      simp only [overloadFor] at found ⊢
      split at found
      · cases found
      · next known =>
        rw [covered.overloads (by simpa using known), if_neg known]
        split at found
        · next taken => simpa only [taken] using found
        · split at found <;> cases found
  | _ => exact fits

lemma Expr.IsAnnotated.covers {e : Expr} (ann : e.IsAnnotated site) : e.IsAnnotated site' :=
  fun s ins => (ann s ins).covers covered

/-- A tree that was inferred is given back where more is known. -/
lemma Expr.infer_again {e t : Expr} (inf : e.infer site = .ok t) : t.infer site' = .ok t :=
  infer_eq_self_iff.mpr ((isAnnotated_of_infer inf).covers covered)

/-! ## Statements -/

namespace Site

lemma initializer_again {name : String} {decl : Ty} {init init' : Option Expr}
    (chk : site.initializer name decl init = .ok init') :
    site'.initializer name decl init' = .ok init' := by
  cases init with
  | none =>
    cases chk
    rfl
  | some init =>
    simp only [initializer, bind_eq_ok, pure_eq_ok, requireInitializer_eq_ok] at chk
    obtain ⟨inf, isInf, _, conv, rfl⟩ := chk
    simp only [initializer, bind_eq_ok, pure_eq_ok, requireInitializer_eq_ok]
    exact ⟨inf, Expr.infer_again covered isInf, (), conv, rfl⟩

lemma condition_again {cond ann : Expr} (chk : site.condition cond = .ok ann) :
    site'.condition ann = .ok ann := by
  simp only [Site.condition, bind_eq_ok, pure_eq_ok, requireBool_eq_ok] at chk ⊢
  obtain ⟨inf, isInf, _, isBool, rfl⟩ := chk
  exact ⟨inf, Expr.infer_again covered isInf, (), isBool, rfl⟩

omit covered in
lemma mapM_again {ε α : Type} {f f' : α → Except ε α} (again : ∀ a b, f a = .ok b → f' b = .ok b)
    {given res : Option α} (mapped : given.mapM f = .ok res) : res.mapM f' = .ok res := by
  cases given with
  | none =>
    cases mapped
    rfl
  | some a =>
    obtain ⟨b, found, rfl⟩ := map_eq_ok.mp mapped
    exact map_eq_ok.mpr ⟨b, again a b found, rfl⟩

end Site

end Covers

namespace Stmt

section Again

variable {enc : Enclosing} {table inner last larger : SymbolTable} {ss₀ ss : List Stmt}

/-- What has passed once passes again, unchanged. -/
lemma PassesAlone.again {site site' : Site} {s₀ s : Stmt} (passes : PassesAlone enc site s₀ s)
    (covers : site'.symbols.Covers site.symbols) : PassesAlone enc site' s s := by
  cases passes with
  | eval inf => exact .eval (Expr.infer_again covers inf)
  | result inf conv => exact .result (Expr.infer_again covers inf) conv
  | noResult isVoid => exact .noResult isVoid
  | leave => exact .leave
  | next => exact .next

lemma Passes.extends_ (passes : Passes enc table ss₀ ss last) (wf : table.WellFormed) :
    table.Extends last :=
  (passes.leads wf (.refl _)).extended

lemma Passes.keeps (passes : Passes enc table.pushScope ss₀ ss inner)
    (wf : table.WellFormed) : table.Keeps inner.popScope :=
  (passes.extends_ (wellFormed_pushScope wf)).keeps_popScope wf

/-- Statements that were accepted are accepted again where more is known. -/
lemma Passes.again (passes : Passes enc table ss₀ ss last)
    (fixed : table.Fixes (localTypesOfAll ss)) (covers : larger.Covers table) :
    ∃ last', Passes enc larger ss ss last' ∧ last'.Covers last := by
  induction passes generalizing larger with
  | done => exact ⟨larger, .done, covers⟩
  | @alone table _ _ _ _ _ given _ ih =>
    have covers' : (enc.site larger).symbols.Covers (enc.site table).symbols := covers
    obtain ⟨last', rest, after⟩ := ih fixed.of_append.2 covers
    exact ⟨last', .alone (given.again covers') rest, after⟩
  | @declare table _ name ty _ _ _ _ declb initialized _ ih =>
    obtain ⟨own, fixedRest⟩ := fixed.of_append
    have twice : larger.resolve (table.resolve ty) = table.resolve ty := by
      rw [resolve_congr covers.structs]
      exact own _ mem_cons_self
    obtain ⟨last', rest, after⟩ := ih (fixedRest.congr rfl) (covers.declare name (table.resolve ty))
    refine ⟨last', ?_, after⟩
    have again := @Passes.declare enc larger last' name (table.resolve ty)
    rw [twice] at again
    exact again declb (Site.initializer_again covers initialized) rest
  | block body _ ihBody ih =>
    obtain ⟨fixedBody, fixedRest⟩ := fixed.of_append
    obtain ⟨inner', body', -⟩ := ihBody fixedBody.pushScope covers.pushScope
    have kept := body.keeps covers.wellFormed
    obtain ⟨last', rest, after⟩ := ih (fixedRest.congr kept.extends_.structs)
      (covers.keeps kept (body'.keeps covers.largerWellFormed))
    exact ⟨last', .block body' rest, after⟩
  | branch isCond acc rej _ ihA ihR ih =>
    obtain ⟨fixedOwn, fixedRest⟩ := fixed.of_append
    obtain ⟨fixedAccept, fixedReject⟩ := SymbolTable.Fixes.of_append fixedOwn
    obtain ⟨inner, acc', -⟩ := ihA fixedAccept.pushScope covers.pushScope
    have fst := acc.keeps covers.wellFormed
    have covers' := covers.keeps fst (acc'.keeps covers.largerWellFormed)
    obtain ⟨inner', rej', -⟩ :=
      ihR (fixedReject.congr fst.extends_.structs).pushScope covers'.pushScope
    have snd := rej.keeps covers'.wellFormed
    obtain ⟨last', rest, after⟩ :=
      ih (fixedRest.congr (snd.extends_.structs.trans fst.extends_.structs))
        (covers'.keeps snd (rej'.keeps covers'.largerWellFormed))
    exact ⟨last', .branch (Site.condition_again covers isCond) acc' rej' rest, after⟩
  | @loop _ header _ _ _ init' _ _ _ _ _ _ _ _ isInit isCond isStep body _ ihInit ihBody ih =>
    obtain ⟨fixedOwn, fixedRest⟩ := fixed.of_append
    obtain ⟨fixedInit, fixedBody⟩ := SymbolTable.Fixes.of_append fixedOwn
    rw [← localTypesOfAll_toList] at fixedInit
    obtain ⟨header', isInit', covers'⟩ := ihInit fixedInit.pushScope covers.pushScope
    have opn := isInit.extends_ covers.pushScope.wellFormed
    obtain ⟨inner', body', -⟩ :=
      ihBody (fixedBody.pushScope.congr opn.structs).pushScope covers'.pushScope
    have kept := opn.trans (body.keeps covers'.wellFormed).extends_
    have kept' := (isInit'.extends_ covers.pushScope.largerWellFormed).trans
      (body'.keeps covers'.largerWellFormed).extends_
    have closed := kept.keeps_popScope covers.wellFormed
    obtain ⟨last', rest, after⟩ := ih (fixedRest.congr closed.extends_.structs)
      (covers.keeps closed (kept'.keeps_popScope covers.largerWellFormed))
    exact ⟨last', .loop isInit' (Site.mapM_again (fun _ _ => Site.condition_again covers') isCond)
      (Site.mapM_again (fun _ _ => Expr.infer_again covers') isStep) body' rest, after⟩

end Again

end Stmt

/-! ## Functions -/

namespace FunctionDef

variable {f f' : FunctionDef} {syms after larger : SymbolTable}

/-- An accepted function is written with the resolved types. -/
lemma declaredTypes_check (wf : syms.WellFormed) (gives : f.check.Gives syms f' after) :
    f'.formTypes = f.formTypes.map syms.resolve
      ∧ f'.localTypes = f.localTypes.map syms.resolve := by
  obtain ⟨inner, acc, -, -, form⟩ := gives_check.mp gives
  obtain ⟨ps, res⟩ := Overload.mk.inj form
  refine ⟨by simp [formTypes, ← ps, ← res], ?_⟩
  have entered := extends_declareAll (wellFormed_pushScope wf)
    ((syms.overloadOf f).parameters.map fun p => (p.name, p.ty))
  have locs := acc.localTypes
  rwa [resolve_eq_of_structs entered.structs, resolve_pushScope] at locs

/-- A function has the form that it is written with if there is nothing to resolve in it. -/
lemma overloadOf_of_fixes (fixed : syms.Fixes f.formTypes) :
    syms.overloadOf f = ⟨f.parameters, f.result⟩ := by
  obtain ⟨ps, res⟩ := SymbolTable.Fixes.of_append fixed
  rw [SymbolTable.overloadOf, res f.result (mem_singleton_self _)]
  congr 1
  refine (map_congr_left fun p mem => ?_).trans (map_id _)
  rw [ps p.ty (mem_map_of_mem mem)]
  rfl

/-- A function that was accepted is accepted again where more is known. -/
lemma check_again (fixed : syms.Fixes (f'.formTypes ++ f'.localTypes)) (covers : larger.Covers syms)
    (gives : f.check.Gives syms f' after) : ∃ after', f'.check.Gives larger f' after' := by
  obtain ⟨fixedForm, fixedLocals⟩ := fixed.of_append
  obtain ⟨inner, acc, -, name, form⟩ := gives_check.mp gives
  have form' := overloadOf_of_fixes (fixedForm.congr covers.structs)
  have ins := covers.pushScope.declareAll (f'.parameters.map fun p => (p.name, p.ty))
  have fixedLocals' := fixedLocals.pushScope.congr (extends_declareAll covers.pushScope.wellFormed
      (f'.parameters.map fun p => (p.name, p.ty))).structs
  rw [form, ← name] at acc
  obtain ⟨inner', acc', -⟩ := acc.again fixedLocals' ins
  refine ⟨_, gives_check.mpr ⟨inner', ?_, rfl, rfl, form'⟩⟩
  rw [form']
  exact acc'

/-- A function that returns an annotated value of its result type is accepted as it is. -/
lemma gives_check_return {val : Expr} (form : syms.overloadOf f = ⟨f.parameters, f.result⟩)
    (body : f.body = [.ret (some val)]) (ann : val.IsAnnotated (f.entry syms))
    (conv : val.ty.convertsTo f.result) : ∃ after, f.check.Gives syms f after := by
  refine ⟨_, gives_check.mpr ⟨(f.entry syms).symbols, ?_, rfl, rfl, form⟩⟩
  rw [form, body]
  exact .alone (.result (Expr.infer_eq_self_iff.mpr ann) conv) .done

end FunctionDef

/-! ## Items -/

namespace Item

variable {item item' : Item} {items items' : List Item} {table next last larger : SymbolTable}
  {follow : FunctionDef → List FunctionDef} {f : FunctionDef}

lemma check_function_eq_ok : ((Item.function f).check table).outcome = .ok (item', next) ↔
      ∃ f', item' = .function f' ∧ f.check.Gives table f' next := by
  simp only [check, Logged.bind_ok, Checking.Gives]
  generalize f.check.run.run table = reply
  obtain ⟨outc, left⟩ := reply
  simp only [Logged.bind_ok]
  constructor
  · rintro ⟨_, -, f', acc, isItem⟩
    obtain ⟨rfl, rfl⟩ := Prod.mk.inj (Except.ok.inj isItem)
    exact ⟨f', rfl, acc, rfl⟩
  · rintro ⟨f', rfl, acc, rfl⟩
    exact ⟨(), rfl, f', acc, rfl⟩

lemma check_global_eq_ok {decl : GlobalVar} :
    ((Item.global decl).check table).outcome = .ok (item', next) ↔
      ∃ init, Site.initializer ⟨table, none⟩ decl.name (table.resolve decl.ty) decl.init = .ok init
        ∧ item' = .global { decl with ty := table.resolve decl.ty, init := init }
        ∧ (table.declare decl.name (table.resolve decl.ty)).2 = next := by
  simp only [check, Logged.bind_ok]
  constructor
  · rintro ⟨init, chk, isItem⟩
    obtain ⟨rfl, rfl⟩ := Prod.mk.inj (Except.ok.inj isItem)
    exact ⟨init, chk, rfl, rfl⟩
  · rintro ⟨init, chk, rfl, rfl⟩
    exact ⟨init, chk, rfl⟩

section

variable (wf : table.WellFormed) (chk : (item.check table).outcome = .ok (item', next))

include wf chk

lemma check_extends : table.Extends next := by
  cases item with
  | struct decl =>
    cases chk
    exact .refl wf
  | global decl =>
    obtain ⟨-, -, -, rfl⟩ := check_global_eq_ok.mp chk
    exact extends_declare wf _ _
  | function f =>
    obtain ⟨f', -, gives⟩ := check_function_eq_ok.mp chk
    exact (check_checked wf gives).1.extends_

/-- An accepted item is written with the resolved types. -/
lemma declaredTypes_check : item'.declaredTypes = item.declaredTypes.map table.resolve := by
  cases item with
  | struct decl =>
    cases chk
    rfl
  | global decl =>
    obtain ⟨_, -, rfl, -⟩ := check_global_eq_ok.mp chk
    rfl
  | function f =>
    obtain ⟨f', rfl, gives⟩ := check_function_eq_ok.mp chk
    obtain ⟨form, locs⟩ := FunctionDef.declaredTypes_check wf gives
    simp [declaredTypes, form, locs]

end

/-- An item that was accepted is accepted again where more is known. -/
lemma check_again (fixed : table.Fixes item'.declaredTypes) (covers : larger.Covers table)
    (chk : (item.check table).outcome = .ok (item', next)) :
    ∃ next', (item'.check larger).outcome = .ok (item', next') ∧ next'.Covers next := by
  cases item with
  | struct decl =>
    cases chk
    exact ⟨larger, rfl, covers⟩
  | global decl =>
    obtain ⟨init, initialized, rfl, rfl⟩ := check_global_eq_ok.mp chk
    have twice : larger.resolve (table.resolve decl.ty) = table.resolve decl.ty := by
      rw [resolve_congr covers.structs]
      exact fixed _ mem_cons_self
    refine ⟨_, check_global_eq_ok.mpr ⟨init, ?_, ?_, rfl⟩, ?_⟩
    · rw [twice]
      exact Site.initializer_again covers initialized
    · rw [twice]
    · rw [twice]
      exact covers.declare _ _
  | function f =>
    obtain ⟨f', rfl, gives⟩ := check_function_eq_ok.mp chk
    obtain ⟨next', gives'⟩ := FunctionDef.check_again fixed covers gives
    refine ⟨next', check_function_eq_ok.mpr ⟨f', rfl, gives'⟩, ?_⟩
    have keeps := (check_checked covers.wellFormed gives).1
    have keeps' := (check_checked covers.largerWellFormed gives').1
    exact covers.keeps keeps keeps'

/-- An accepted function is what the check made of some function. -/
lemma exists_gives_of_check {f' : FunctionDef}
    (chk : (item.check table).outcome = .ok (.function f', next)) :
    ∃ f : FunctionDef, f.check.Gives table f' next := by
  cases item with
  | struct decl => cases chk
  | global decl =>
    obtain ⟨_, _, isGlobal, _⟩ := check_global_eq_ok.mp chk
    cases isGlobal
  | function f =>
    obtain ⟨_, ⟨⟩, gives⟩ := check_function_eq_ok.mp chk
    exact ⟨f, gives⟩

/-- The item, and after a function those that follow it. -/
def followedBy (follow : FunctionDef → List FunctionDef) : Item → List Item
  | .function f => .function f :: (follow f).map .function
  | item => [item]

/-- Items are accepted one after another, each with the symbols that the one before it left. -/
inductive Checks : SymbolTable → List Item → List Item → SymbolTable → Prop
  | nil {table : SymbolTable} : Checks table [] [] table
  | cons {table next last : SymbolTable} {item item' : Item} {items items' : List Item}
      (first : (item.check table).outcome = .ok (item', next))
      (rest : Checks next items items' last) : Checks table (item :: items) (item' :: items') last

lemma checkAll_eq_ok :
    (checkAll table items).outcome = .ok items' ↔ ∃ last, Checks table items items' last := by
  induction items generalizing table items' with
  | nil =>
    constructor
    · intro chk
      cases chk
      exact ⟨table, .nil⟩
    · rintro ⟨_, ⟨⟩⟩
      rfl
  | cons item items ih =>
    simp only [checkAll, Logged.bind_ok]
    constructor
    · rintro ⟨⟨item', next⟩, fst, items', rest, isItems⟩
      cases isItems
      obtain ⟨last, rest⟩ := ih.mp rest
      exact ⟨last, .cons fst rest⟩
    · rintro ⟨last, checks⟩
      cases checks with
      | cons fst rest => exact ⟨_, fst, _, ih.mpr ⟨last, rest⟩, rfl⟩

namespace Checks

lemma append {more more' : List Item} (fst : Checks table items items' next)
    (snd : Checks next more more' last) : Checks table (items ++ more) (items' ++ more') last := by
  induction fst with
  | nil => exact snd
  | cons chk _ ih => exact .cons chk (ih snd)

/-- Functions that each check to themselves do so one after another. -/
lemma functions (wf : table.WellFormed) (fs : List FunctionDef)
    (each : ∀ f ∈ fs, ∀ {later}, table.Keeps later → ∃ after, f.check.Gives later f after) :
    ∃ last, Checks table (fs.map .function) (fs.map .function) last ∧ table.Keeps last := by
  induction fs generalizing table with
  | nil => exact ⟨table, .nil, .refl wf⟩
  | cons f fs ih =>
    obtain ⟨next, fst⟩ := each f mem_cons_self (.refl wf)
    have keeps := (check_checked wf fst).1
    obtain ⟨last, rest, keeps'⟩ := ih keeps.extends_.wellFormed fun g mem _ later =>
      each g (mem_cons_of_mem _ mem) (keeps.trans later)
    exact ⟨last, .cons (check_function_eq_ok.mpr ⟨f, rfl, fst⟩) rest, keeps.trans keeps'⟩

section

variable (checks : Checks table items items' last)

include checks

/-- Accepted items are written with the resolved types. -/
lemma declaredTypes_eq (wf : table.WellFormed) :
    items'.flatMap declaredTypes = (items.flatMap declaredTypes).map table.resolve := by
  induction checks with
  | nil => rfl
  | cons fst rest ih =>
    have ext := check_extends wf fst
    have others := ih ext.wellFormed
    rw [resolve_eq_of_structs ext.structs] at others
    simp [declaredTypes_check wf fst, others]

/-- Items that were accepted are accepted again where more is known, also with functions put in
after each function, if those check there. -/
lemma again (fixed : table.Fixes (items'.flatMap declaredTypes)) (covers : larger.Covers table)
    (each : ∀ {f₀ f : FunctionDef} {tbl' larger' after : SymbolTable}, .function f ∈ items' →
      table.Extends tbl' → larger.Extends larger' → larger'.Covers tbl' →
      f₀.check.Gives tbl' f after → ∀ h ∈ follow f, ∃ after, h.check.Gives larger' h after) :
    ∃ last', Checks larger (items'.flatMap (followedBy follow)) (items'.flatMap (followedBy follow))
        last' ∧ larger.Extends last' ∧ last'.Covers last := by
  induction checks generalizing larger with
  | nil => exact ⟨larger, .nil, .refl covers.largerWellFormed, covers⟩
  | @cons table next last item item' items items' fst rest ih =>
    obtain ⟨fixedFirst, fixedRest⟩ := SymbolTable.Fixes.of_append fixed
    obtain ⟨next', fst', covers'⟩ := check_again fixedFirst covers fst
    have ext := check_extends covers.wellFormed fst
    have ext' := check_extends covers.largerWellFormed fst'
    obtain ⟨mid, own, kept⟩ : ∃ mid, Checks larger (followedBy follow item')
        (followedBy follow item') mid ∧ next'.Keeps mid := by
      cases item' with
      | function f =>
        obtain ⟨f₀, gives⟩ := exists_gives_of_check fst
        have outside := (check_checked covers.wellFormed gives).1.covers covers.wellFormed
        obtain ⟨mid, following, kept⟩ := functions ext'.wellFormed (follow f)
          fun h mem later kept =>
            each mem_cons_self (.refl covers.wellFormed) (ext'.trans kept.extends_)
              ((kept.covers ext'.wellFormed).trans (covers'.trans outside)) gives h mem
        exact ⟨mid, .cons fst' following, kept⟩
      | struct _ | global _ => exact ⟨next', .cons fst' .nil, .refl ext'.wellFormed⟩
    have coversMiddle := (kept.covers ext'.wellFormed).trans covers'
    obtain ⟨last', others, extendedLast, coversLast⟩ := ih (fixedRest.congr ext.structs)
      coversMiddle fun mem before before' =>
        each (mem_cons_of_mem _ mem) (ext.trans before) ((ext'.trans kept.extends_).trans before')
    exact ⟨last', own.append others, (ext'.trans kept.extends_).trans extendedLast, coversLast⟩

/-- The types are fixed where no struct is used before its declaration. -/
lemma fixes (wf : table.WellFormed) (res : table.IsResolved) :
    table.Fixes (items'.flatMap declaredTypes) := by
  rw [checks.declaredTypes_eq wf]
  exact res.fixes_map (items.flatMap declaredTypes)

end

/-- The globals of the items are not known yet, and none of them is declared twice. -/
structure Fresh (table : SymbolTable) (items : List Item) : Prop where
  unknown : ∀ g ∈ (Shader.mk items).globals, table.lookup g.name = none
  distinct : ((Shader.mk items).globals.map (·.name)).Nodup

/-- An item that declares no known name leaves a table that covers the one before it. -/
lemma covers_of_fresh (wf : table.WellFormed) (fresh : Fresh table (item' :: items'))
    (chk : (item.check table).outcome = .ok (item', next)) :
    next.Covers table ∧ Fresh next items' := by
  cases item with
  | struct decl =>
    cases chk
    exact ⟨.refl wf, fresh.unknown, fresh.distinct⟩
  | global decl =>
    obtain ⟨init, -, rfl, rfl⟩ := check_global_eq_ok.mp chk
    have unk := fresh.unknown _ mem_cons_self
    obtain ⟨others, nodup⟩ := nodup_cons.mp fresh.distinct
    refine ⟨(SymbolTable.Covers.refl wf).advance (.refl wf) (extends_declare wf _ _)
      fun {name} _ found => ?_, fun g mem => ?_, nodup⟩
    · rw [lookup_declare wf, if_neg]
      · exact found
      · rintro rfl
        cases unk.symm.trans found
    · rw [lookup_declare wf, if_neg]
      · exact fresh.unknown g (mem_cons_of_mem _ mem)
      · intro same
        exact others (mem_map.mpr ⟨g, mem, same⟩)
  | function f =>
    obtain ⟨f', rfl, gives⟩ := check_function_eq_ok.mp chk
    have keeps := (check_checked wf gives).1
    exact ⟨keeps.covers wf, by rw [keeps.lookup]; exact fresh.unknown, fresh.distinct⟩

section

variable (checks : Checks table items items' last) (wf : table.WellFormed)

include checks wf

lemma covers (fresh : Fresh table items') : last.Covers table := by
  induction checks with
  | nil => exact .refl wf
  | cons fst _ ih =>
    obtain ⟨covers, fresh⟩ := covers_of_fresh wf fresh fst
    exact (ih covers.largerWellFormed fresh).trans covers

/-- A function that was accepted was checked in some table. What was known there is known at the
end. -/
lemma gives_of_mem (mem : .function f ∈ items') :
    ∃ (f₀ : FunctionDef) (tbl' after : SymbolTable), table.Extends tbl'
      ∧ f₀.check.Gives tbl' f after ∧ (Fresh table items' → last.Covers tbl') := by
  induction checks with
  | nil => cases mem
  | @cons table next last item item' items items' fst rest ih =>
    have ext := check_extends wf fst
    rcases mem_cons.mp mem with rfl | inRest
    · obtain ⟨f₀, gives⟩ := exists_gives_of_check fst
      refine ⟨f₀, table, next, .refl wf, gives, fun fresh => ?_⟩
      obtain ⟨covers, fresh'⟩ := covers_of_fresh wf fresh fst
      exact (rest.covers ext.wellFormed fresh').trans covers
    · obtain ⟨f₀, tbl', after, ext', gives, known⟩ := ih ext.wellFormed inRest
      exact ⟨f₀, tbl', after, ext.trans ext', gives, fun fresh =>
        known (covers_of_fresh wf fresh fst).2⟩

end

end Checks

end Item

end ShaderAlgebra
