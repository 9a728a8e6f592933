import Mathlib.Data.Set.Function
import ShaderAlgebra.Proofs.Script.Naming

/-!
# Spellings that merge

A script spells a name as it is, or with an underscore at its end if scripts reserve it, and it
declares a setter for each global that the host provides. So different names can become one in three
ways: a reserved word beside the same word with an underscore, a global or function with the name of
a setter, and two setters whose globals differ only in the case of their first letter
(`Shader.ExportsApart`).

The names that a script exports are different exactly if none of these happens, and the variables
that are in scope at a point of a function are spelled differently exactly if the first does not
happen there (`Shader.lower_keeps_apart_iff`). Different names of structs, globals and functions are
not enough (`Shader.lower_merges_setter`).
-/

namespace ShaderAlgebra

open List
open Script (mangle setterName)

/-! ## Equal spellings -/

namespace Script

/-- Two names are spelled alike if they are the same, or if one is a reserved word and the other is
that word with an underscore. -/
lemma mangle_eq_mangle_iff {a b : String} : mangle a = mangle b ↔
      a = b ∨ (a ∈ reservedWords ∧ a ++ "_" = b) ∨ (b ∈ reservedWords ∧ b ++ "_" = a) := by
  have spelled (name : String) (reserved : name ∈ reservedWords) : name ++ "_" ∉ reservedWords := by
    simpa [mangle, reserved] using mangle_not_mem_reservedWords name
  by_cases reserved : a ∈ reservedWords <;> by_cases reserved' : b ∈ reservedWords
  · have notA : b ++ "_" ≠ a := fun same => spelled b reserved' (same ▸ reserved)
    have notB : a ++ "_" ≠ b := fun same => spelled a reserved (same ▸ reserved')
    simp [mangle, reserved, reserved', notA, notB]
  · have other : a ≠ b := fun same => reserved' (same ▸ reserved)
    simp [mangle, reserved, reserved', other]
  · have other : a ≠ b := fun same => reserved (same ▸ reserved')
    simp [mangle, reserved, reserved', other, eq_comm]
  · simp [mangle, reserved, reserved']

/-- Names are spelled differently exactly if no reserved word stands beside the one with an
underscore. -/
lemma injOn_mangle_iff {names : List String} : Set.InjOn mangle {name | name ∈ names} ↔
      ∀ word ∈ reservedWords, word ∈ names → word ++ "_" ∉ names := by
  constructor
  · intro injective word reserved mem mem'
    have same : word = word ++ "_" :=
      injective mem mem' (mangle_eq_mangle_iff.mpr (.inr (.inl ⟨reserved, rfl⟩)))
    simpa using congrArg String.length same
  · intro apart a mem b mem' spelled
    rcases mangle_eq_mangle_iff.mp spelled with same | ⟨reserved, rfl⟩ | ⟨reserved, rfl⟩
    · exact same
    · exact absurd mem' (apart a reserved mem)
    · exact absurd mem (apart b reserved mem')

lemma setterName_inj {a b : String} :
    setterName a = setterName b ↔ Text.capitalize a = Text.capitalize b := by
  simp [setterName]

/-- Only the name of a setter is spelled like it. -/
lemma mangle_eq_setterName_iff {name own : String} :
    mangle name = setterName own ↔ name = setterName own := by
  have unset : ∀ word ∈ reservedWords, ¬ "set".toList <+: (word ++ "_").toList := by decide
  by_cases reserved : name ∈ reservedWords
  · have spelled : name ++ "_" ≠ setterName own := by
      intro same
      refine unset name reserved ?_
      rw [same, setterName, String.toList_append]
      exact prefix_append _ _
    have kept : name ≠ setterName own := fun same =>
      setterName_not_mem_reservedWords own (same ▸ reserved)
    simp [mangle, reserved, spelled, kept]
  · simp [mangle, reserved]

end Script

/-! ## Exported names -/

namespace Item

/-- The name that an item declares. -/
def name : Item → String
  | .struct s => s.name
  | .global g => g.name
  | .function f => f.name

/-- The global whose value the host provides. -/
def provided : Item → List String
  | .global g =>
    match g.storage with
    | some .uniform | some .input => [g.name]
    | _ => []
  | _ => []

lemma setters_eq (item : Item) :
    item.setters = item.provided.map fun own => setterName (mangle own) := by
  cases item with
  | global g =>
    obtain ⟨name, ty, storage, init⟩ := g
    rcases storage with _ | _ | _ | _ | _ <;> rfl
  | struct _ | function _ => rfl

lemma symbols_sublist_name (item : Item) : (item.symbols.map Symbol.name).Sublist [item.name] := by
  cases item with
  | struct s => exact nil_sublist _
  | global g | function f => exact List.Sublist.refl _

end Item

namespace Shader

/-- The names of the structs, globals and functions of a shader. -/
def names (shader : Shader) : List String := shader.items.map Item.name

/-- The names of the globals and functions. -/
def outerNames (shader : Shader) : List String := shader.symbols.map Symbol.name

/-- The globals whose values the host provides. -/
def provided (shader : Shader) : List String := shader.items.flatMap Item.provided

/-- Nothing that the script of the shader exports gets the name of something else. -/
structure ExportsApart (shader : Shader) : Prop where
  reserved : ∀ word ∈ Script.reservedWords, word ∈ shader.outerNames →
    word ++ "_" ∉ shader.outerNames
  setters : ∀ own ∈ shader.provided, Script.setterName (Script.mangle own) ∉ shader.outerNames
  capitals : (shader.provided.map fun own => Text.capitalize (Script.mangle own)).Nodup

variable {shader annotated : Shader}

lemma outerNames_sublist (shader : Shader) : shader.outerNames.Sublist shader.names := by
  have all (items : List Item) :
      ((items.flatMap Item.symbols).map Symbol.name).Sublist (items.map Item.name) := by
    induction items with
    | nil => exact List.Sublist.refl _
    | cons item items ih =>
      rw [flatMap_cons, map_append]
      exact item.symbols_sublist_name.append ih
  exact all shader.items

lemma names_of_infer (inferred : shader.infer.outcome = .ok annotated) :
    annotated.names = shader.names := by
  have all {table last : SymbolTable} {items items' : List Item}
      (checks : Item.Checks table items items' last) :
      items'.map Item.name = items.map Item.name := by
    induction checks with
    | nil => rfl
    | @cons table next last item item' items items' first rest ih =>
      refine congrArg₂ List.cons ?_ ih
      cases item with
      | struct declaration =>
        cases first
        rfl
      | global declaration =>
        obtain ⟨_, -, rfl, -⟩ := Item.check_global_eq_ok.mp first
        rfl
      | function f =>
        obtain ⟨f', rfl, gives⟩ := Item.check_function_eq_ok.mp first
        obtain ⟨-, -, -, name, -⟩ := FunctionDef.gives_check.mp gives
        exact name
  obtain ⟨last, checks⟩ := infer_eq_ok.mp inferred
  exact all checks

lemma spellings_eq (shader : Shader) : shader.spellings = shader.outerNames.map mangle
      ++ shader.provided.map fun own => setterName (mangle own) := by
  rw [spellings, outerNames, map_map, provided, map_flatMap]
  exact congrArg (_ ++ ·) (flatMap_congr fun item _ => item.setters_eq)

/-- Different globals and functions export different names exactly if none of them gets the name of
another, or of a setter. -/
lemma nodup_spellings_iff (distinct : shader.outerNames.Nodup) :
    shader.spellings.Nodup ↔ shader.ExportsApart := by
  have outer : (shader.outerNames.map mangle).Nodup ↔
      ∀ word ∈ Script.reservedWords, word ∈ shader.outerNames →
        word ++ "_" ∉ shader.outerNames := by
    rw [← Script.injOn_mangle_iff, nodup_map_iff_inj_on distinct]
    exact ⟨fun inj a mem b mem' => inj a mem b mem', fun inj a mem b mem' => inj mem mem'⟩
  have setters : (shader.provided.map fun own => setterName (mangle own)).Nodup ↔
      (shader.provided.map fun own => Text.capitalize (mangle own)).Nodup := by
    simp only [List.Nodup, pairwise_map, ne_eq, Script.setterName_inj]
  have disjoint : (∀ a ∈ shader.outerNames.map mangle,
      ∀ b ∈ shader.provided.map (fun own => setterName (mangle own)), a ≠ b) ↔
      ∀ own ∈ shader.provided, setterName (mangle own) ∉ shader.outerNames := by
    simp only [forall_mem_map, ne_eq, Script.mangle_eq_setterName_iff]
    exact ⟨fun apart own mem inside => apart _ inside own mem rfl,
      fun apart name inside own mem same => apart own mem (same ▸ inside)⟩
  rw [spellings_eq, nodup_append, outer, setters, disjoint]
  exact ⟨fun ⟨reserved, capitals, setters⟩ => ⟨reserved, setters, capitals⟩,
    fun ⟨reserved, setters, capitals⟩ => ⟨reserved, capitals, setters⟩⟩

end Shader

/-! ## Variables in scope -/

namespace Stmt

mutual

/-- The variables in scope at each point inside of a statement, where `visible` are in scope before
it. -/
def views (visible : List String) : Stmt → List (List String)
  | .branch _ accept reject => viewsOfAll visible accept ++ viewsOfAll visible reject
  | .loop init _ _ body =>
    let inside := visible ++ (declaredOfOption init).map Symbol.name
    viewsOfOption visible init ++ inside :: viewsOfAll inside body
  | .block body => viewsOfAll visible body
  | .declare .. | .eval _ | .ret _ | .leave | .next => []

def viewsOfOption (visible : List String) : Option Stmt → List (List String)
  | none => []
  | some s => views visible s

/-- The variables in scope before, inside of and after statements that stand one after another. -/
def viewsOfAll (visible : List String) : List Stmt → List (List String)
  | [] => [visible]
  | s :: ss =>
    visible :: (views visible s ++ viewsOfAll (visible ++ s.declared.map Symbol.name) ss)

end

end Stmt

namespace Script.Stmt

mutual

/-- The variables in scope at each point inside of a statement. -/
def views (visible : List String) : Stmt → List (List String)
  | .branch _ accept reject => viewsOfAll visible accept ++ viewsOfAll visible reject
  | .loop init _ _ body =>
    let inside := visible ++ (declaredOfOption init).map Declared.name
    viewsOfOption visible init ++ inside :: viewsOfAll inside body
  | .block body => viewsOfAll visible body
  | .declare .. | .eval _ | .ret _ | .leave | .next => []

def viewsOfOption (visible : List String) : Option Stmt → List (List String)
  | none => []
  | some s => views visible s

def viewsOfAll (visible : List String) : List Stmt → List (List String)
  | [] => [visible]
  | s :: ss =>
    visible :: (views visible s ++ viewsOfAll (visible ++ s.declared.map Declared.name) ss)

end

lemma mem_viewsOfAll_self (visible : List String) (ss : List Stmt) :
    visible ∈ viewsOfAll visible ss := by
  cases ss <;> exact mem_cons_self

/-- Evaluating something first changes no view. -/
lemma mem_viewsOfAll_cons_eval {visible view : List String} {e : Expr} {ss : List Stmt} :
    view ∈ viewsOfAll visible (.eval e :: ss) ↔ view ∈ viewsOfAll visible ss := by
  simp only [viewsOfAll, views, declared, map_nil, append_nil, nil_append,
    mem_cons, or_iff_right_iff_imp]
  rintro rfl
  exact mem_viewsOfAll_self _ _

end Script.Stmt

namespace Stmt

section Lower

variable {structs : StructTable}

/-- The variables of a list of symbols that a script declares are spelled. -/
lemma names_spelled (symbols : List Symbol) : (symbols.map Symbol.spelled).map Script.Declared.name
      = (symbols.map Symbol.name).map mangle := by
  rw [map_map, map_map]
  rfl

mutual

/-- At each point of a script the variables of the shader are in scope, spelled. -/
lemma views_lower : (s : Stmt) → (visible : List String) → ∀ {t}, s.lower structs = .ok t →
    t.views (visible.map mangle) = (s.views visible).map (List.map mangle)
  | .declare name ty init, _, _, lowered | .eval e, _, _, lowered | .ret value, _, _, lowered => by
    obtain ⟨_, -, rfl⟩ := lower_eq_ok lowered
    rfl
  | .branch test accept reject, visible, _, lowered => by
    obtain ⟨_, -, _, isAccept, _, isReject, rfl⟩ := lower_eq_ok lowered
    simp only [views, Script.Stmt.views, map_append, viewsOfAll_lower accept visible isAccept,
      viewsOfAll_lower reject visible isReject]
  | .loop init test step body, visible, _, lowered => by
    obtain ⟨_, isInit, _, -, _, -, _, isBody, rfl⟩ := lower_eq_ok lowered
    have header := viewsOfOption_lower init visible isInit
    have inside := viewsOfAll_lower body (visible ++ (declaredOfOption init).map Symbol.name) isBody
    simp only [views, Script.Stmt.views, declaredOfOption_lower isInit, names_spelled,
      map_append, map_cons] at header inside ⊢
    rw [header, inside]
  | .block body, visible, _, lowered => by
    obtain ⟨_, isBody, rfl⟩ := lower_eq_ok lowered
    exact viewsOfAll_lower body visible isBody
  | .leave, _, _, lowered | .next, _, _, lowered => by
    cases lowered
    rfl

lemma viewsOfOption_lower : (s : Option Stmt) → (visible : List String) →
    ∀ {t}, lowerOption structs s = .ok t →
    Script.Stmt.viewsOfOption (visible.map mangle) t
      = (viewsOfOption visible s).map (List.map mangle)
  | none, _, _, lowered => by
    cases lowered
    rfl
  | some s, visible, _, lowered => by
    obtain ⟨_, isLowered, rfl⟩ := lowerOption_some_eq_ok lowered
    exact views_lower s visible isLowered

lemma viewsOfAll_lower : (ss : List Stmt) → (visible : List String) →
    ∀ {ts}, lowerAll structs ss = .ok ts →
    Script.Stmt.viewsOfAll (visible.map mangle) ts = (viewsOfAll visible ss).map (List.map mangle)
  | [], _, _, lowered => by
    cases lowered
    rfl
  | s :: ss, visible, _, lowered => by
    obtain ⟨_, isFirst, _, isRest, rfl⟩ := lowerAll_cons_eq_ok lowered
    have own := views_lower s visible isFirst
    have others := viewsOfAll_lower ss (visible ++ s.declared.map Symbol.name) isRest
    simp only [viewsOfAll, Script.Stmt.viewsOfAll, declared_lower isFirst, names_spelled,
      map_append, map_cons] at own others ⊢
    rw [own, others]

end

end Lower

end Stmt

/-- The variables in scope at the points of a function, where `globals` are declared before it. -/
def FunctionDef.views (globals : List String) (f : FunctionDef) : List (List String) :=
  Stmt.viewsOfAll (globals ++ f.parameterSymbols.map Symbol.name) f.body

def Script.Function.views (globals : List String) (f : Function) : List (List String) :=
  Stmt.viewsOfAll (globals ++ f.parameters.map Binding.name) f.body

lemma FunctionDef.mem_views_lower {structs : StructTable} {f : FunctionDef} {g : Script.Function}
    (lowered : (f.lower structs).outcome = .ok g) {globals view : List String} :
    view ∈ g.views (globals.map mangle) ↔ ∃ names ∈ f.views globals, names.map mangle = view := by
  obtain ⟨parameters, returns, body, isParameters, isBody, rfl⟩ := lower_eq_ok lowered
  have spelled : parameters.map Script.Binding.name
      = (f.parameterSymbols.map Symbol.name).map mangle := by
    have declared := congrArg (List.map Script.Declared.name)
      (Parameter.declared_lowerAll isParameters)
    simpa [FunctionDef.parameterSymbols, Function.comp_def, Symbol.spelled, Symbol.spelling]
      using declared
  -- The copies of arguments stand where the body starts.
  have copied (ps : List Parameter) (visible : List String) :
      view ∈ Script.Stmt.viewsOfAll visible (ps.filterMap Parameter.ownCopy? ++ body)
        ↔ view ∈ Script.Stmt.viewsOfAll visible body := by
    induction ps with
    | nil => rfl
    | cons p ps ih =>
      cases own : p.ownCopy? with
      | none => rwa [filterMap_cons_none own]
      | some s =>
        obtain ⟨shape, -, rfl⟩ := Parameter.isCopiedBy_of_ownCopy own
        rw [filterMap_cons_some own, cons_append, Script.Stmt.mem_viewsOfAll_cons_eval]
        exact ih
  rw [Script.Function.views, copies_eq, copied, spelled, ← map_append,
    Stmt.viewsOfAll_lower f.body _ isBody, mem_map]
  rfl

namespace Item

/-- The variable that an item declares. -/
def variableNames (item : Item) : List String :=
  (item.symbols.filter (·.ty.isSome)).map Symbol.name

def views (globals : List String) : Item → List (List String)
  | .function f => f.views globals
  | _ => []

/-- The variables in scope at the points of the functions among some items, where `globals` are
declared before them. -/
def viewsOfAll (globals : List String) : List Item → List (List String)
  | [] => []
  | item :: items => item.views globals ++ viewsOfAll (globals ++ item.variableNames) items

end Item

namespace Script.Item

def variableNames (item : Item) : List String :=
  (item.declared.filter (!·.isFunction)).map Declared.name

def views (globals : List String) : Item → List (List String)
  | .function f => f.views globals
  | _ => []

def viewsOfAll (globals : List String) : List Item → List (List String)
  | [] => []
  | item :: items => item.views globals ++ viewsOfAll (globals ++ item.variableNames) items

end Script.Item

/-- The variables in scope at the points of the functions of a script. -/
def Script.Module.views (script : Script.Module) : List (List String) :=
  Item.viewsOfAll [] script.items

namespace Item

variable {structs : StructTable} {item : Item} {item' : Script.Item}

lemma variableNames_lower (lowered : (item.lower structs).outcome = .ok item') :
    item'.variableNames = item.variableNames.map mangle := by
  rw [Script.Item.variableNames, (declared_lower lowered).1, filter_map, variableNames,
    ← Stmt.names_spelled]
  congr 2
  refine filter_congr fun s _ => ?_
  simp [Symbol.spelled]

lemma mem_views_lower (lowered : (item.lower structs).outcome = .ok item')
    {globals view : List String} :
    view ∈ item'.views (globals.map mangle)
      ↔ ∃ names ∈ item.views globals, names.map mangle = view := by
  have opened := lower_eq_ok lowered
  cases item with
  | struct declaration =>
    obtain ⟨properties, rfl⟩ := opened
    simp [views, Script.Item.views]
  | global g =>
    obtain ⟨docType, value, -, rfl | ⟨hasSetter, rfl⟩⟩ := GlobalVar.lower_eq_ok opened
    · simp [views, Script.Item.views]
    · simp [views, Script.Item.views]
  | function f =>
    obtain ⟨g, isFunction, rfl⟩ := opened
    exact FunctionDef.mem_views_lower isFunction

lemma mem_viewsOfAll_lower {items : List Item} {items' : List Script.Item}
    (each : Forall₂ (fun item item' => (item.lower structs).outcome = .ok item') items items')
    (globals : List String) {view : List String} :
    view ∈ Script.Item.viewsOfAll (globals.map mangle) items'
      ↔ ∃ names ∈ viewsOfAll globals items, names.map mangle = view := by
  induction each generalizing globals with
  | nil => simp [viewsOfAll, Script.Item.viewsOfAll]
  | cons first rest ih =>
    simp only [viewsOfAll, Script.Item.viewsOfAll, variableNames_lower first, ← map_append,
      mem_append, mem_views_lower first, ih, or_and_right, exists_or]

end Item

namespace Shader

/-- The variables in scope at the points of the functions of a shader. -/
def views (shader : Shader) : List (List String) := Item.viewsOfAll [] shader.items

variable {shader annotated : Shader} {script : Script.Module}

/-- For an accepted shader whose structs, globals and functions have different names: the names that
its script exports are different exactly if the exports are apart, the variables in scope at the
points of the script are those of the shader, spelled, and at each point different variables are
spelled differently exactly if no reserved word is in scope beside the one with an underscore. -/
theorem lower_keeps_apart_iff (inferred : shader.infer.outcome = .ok annotated)
    (lowered : annotated.lower.outcome = .ok script) (distinct : shader.names.Nodup) :
    ((script.declared.map Script.Declared.name).Nodup ↔ annotated.ExportsApart)
    ∧ (∀ view, view ∈ script.views
        ↔ ∃ names ∈ annotated.views, names.map Script.mangle = view)
    ∧ ∀ names ∈ annotated.views, Set.InjOn Script.mangle {name | name ∈ names} ↔
        ∀ word ∈ Script.reservedWords, word ∈ names → word ++ "_" ∉ names := by
  obtain ⟨-, each⟩ := lower_eq_ok lowered
  refine ⟨?_, fun view => Item.mem_viewsOfAll_lower each [], fun _ _ => Script.injOn_mangle_iff⟩
  rw [names_lower lowered]
  rw [← names_of_infer inferred] at distinct
  exact nodup_spellings_iff (distinct.sublist annotated.outerNames_sublist)

/-- The `let` of `shadowed` is spelled `let_` and stays apart. -/
theorem lower_keeps_apart_shadowed :
    shadowed.infer.outcome = .ok shadowed ∧ shadowed.lower.outcome = .ok shadowedScript
      ∧ shadowed.names.Nodup ∧ shadowed.provided = ["scale"]
      ∧ (shadowedScript.declared.map Script.Declared.name).Nodup
      ∧ ["scale", "x", "let"] ∈ shadowed.views ∧ ["scale", "x", "let_"] ∈ shadowedScript.views
      ∧ ∀ names ∈ shadowed.views, Set.InjOn Script.mangle {name | name ∈ names} := by
  have inferred : shadowed.infer.outcome = .ok shadowed := rfl
  have lowered : shadowed.lower.outcome = .ok shadowedScript := rfl
  have distinct : shadowed.names.Nodup := by decide
  have apart : shadowed.ExportsApart := ⟨by decide, by decide, by decide⟩
  obtain ⟨exported, views, spelled⟩ := lower_keeps_apart_iff inferred lowered distinct
  have seen : ["scale", "x", "let"] ∈ shadowed.views := by decide
  exact ⟨inferred, lowered, distinct, rfl, exported.mpr apart, seen,
    (views _).mpr ⟨_, seen, by decide⟩,
    fun names mem => (spelled names mem).mpr (by revert names; decide)⟩

/-- A function that has the name of the setter of a uniform. -/
def colliding : Shader :=
  let scale := Expr.ident "scale" .float
  let x := Expr.ident "x" .float
  ⟨[.global ⟨"scale", .float, some .uniform, none⟩,
    .function
      { name := "setScale"
        parameters := [⟨"x", .float, .input⟩]
        result := .float
        body := [.ret (some (.binary .multiply scale x .float))] }]⟩

def collidingScript : Script.Module :=
  ⟨[.global ⟨"scale", "number"⟩ (.int 0) true,
    .function
      { name := "setScale"
        parameters := [⟨"x", "number"⟩]
        returns := some "number"
        body := [.ret (some (.binary .multiply (.ident "scale") (.ident "x")))] }]⟩

/-- Its script exports two functions of that name. -/
theorem lower_merges_setter :
    colliding.infer.outcome = .ok colliding ∧ colliding.lower.outcome = .ok collidingScript
      ∧ colliding.names.Nodup
      ∧ collidingScript.declared.map Script.Declared.name = ["scale", "setScale", "setScale"] := by
  refine ⟨rfl, rfl, by decide, ?_⟩
  decide

end Shader

end ShaderAlgebra
