import ShaderAlgebra.Proofs.Script.Resolution
import Mathlib.Data.List.NodupEquivFin

/-!
# Names of lowered shaders

The script of an accepted shader keeps what the names of the shader mean exactly if their spellings
are apart (`Shader.lower_keeps_names`). It is not so for every accepted shader: a variable may be
initialized with another one of its name, and its script then reads the variable before it has a
value (`Shader.lower_loses_names`).

Functions of a script that set a global have no expression in the shader. Their names count, and
their bodies are left out.
-/

namespace ShaderAlgebra

open List

/-! ## Functions -/

lemma Parameter.declared_lowerAll {ps : List Parameter} {bindings : List Script.Binding}
    (lowered : lowerAll ps = .ok bindings) :
    bindings.map (fun b => (⟨b.name, false⟩ : Script.Declared))
      = ps.map fun p => (⟨p.name, some p.ty⟩ : Symbol).spelled := by
  induction ps generalizing bindings with
  | nil => cases lowered; rfl
  | cons p ps ih =>
    simp only [lowerAll, bind_eq_ok, pure_eq_ok] at lowered
    obtain ⟨first, isFirst, rest, isRest, rfl⟩ := lowered
    unfold lower at isFirst
    split at isFirst
    · obtain ⟨docType, -, isBinding⟩ := bind_eq_ok.mp isFirst
      cases isBinding
      exact congrArg₂ List.cons rfl (ih isRest)
    · cases isFirst

namespace FunctionDef

/-- The parameters that a function writes to. -/
def writtenParameters (f : FunctionDef) : List Parameter :=
  f.parameters.filter fun p => (Stmt.writtenAll f.body).contains p.name

/-- The place of a parameter that the script of the function copies at its start. -/
def copyPosition? (outer : List Scope) (f : FunctionDef) (p : Parameter) : Option Position :=
  p.ownCopy?.map fun _ =>
    ⟨⟨f.symbols, f.parameterSymbols.length⟩ :: outer, some (.ident p.name p.ty)⟩

/-- The expressions of a function, after the parameters that its script copies. -/
def positions (outer : List Scope) (f : FunctionDef) : List Position :=
  f.writtenParameters.filterMap (f.copyPosition? outer) ++ f.occurrences outer

/-- The symbols that a function uses from outside. -/
def free (f : FunctionDef) : List Symbol :=
  (Stmt.freeOfAll f.body).filter (!·.isBoundBy f.parameterSymbols)

/-- The scope of a function and the blocks in its body. -/
def blocks (f : FunctionDef) : List Block := ⟨f.symbols, f.free⟩ :: Stmt.blocksOfAll f.body

variable {structs : StructTable} {site : Site} {names : Names} {outer : List Scope}
  {outer' : List Script.Scope} {f : FunctionDef} {g : Script.Function}

lemma copies_eq (f : FunctionDef) :
    f.copies = f.writtenParameters.filterMap Parameter.ownCopy? := rfl

lemma writtenParameters_subset (f : FunctionDef) : f.writtenParameters ⊆ f.parameters :=
  fun _ => mem_of_mem_filter

/-- Copies of arguments declare nothing. -/
lemma declaredOfAll_ownCopies (ps : List Parameter) :
    Script.Stmt.declaredOfAll (ps.filterMap Parameter.ownCopy?) = []
      ∧ Script.Stmt.scopesOfAll (ps.filterMap Parameter.ownCopy?) = [] := by
  induction ps with
  | nil => exact ⟨rfl, rfl⟩
  | cons p ps ih =>
    cases own : p.ownCopy? with
    | none => rwa [filterMap_cons_none own]
    | some s =>
      obtain ⟨shape, -, rfl⟩ := Parameter.isCopiedBy_of_ownCopy own
      rw [filterMap_cons_some own]
      exact ih

lemma length_ownCopies {own : List Script.Declared} {count : Nat} (ps : List Parameter) :
    (ps.filterMap (f.copyPosition? outer)).length
      = (Script.Stmt.positionsOfAll outer' own count (ps.filterMap Parameter.ownCopy?)).length := by
  induction ps with
  | nil => rfl
  | cons p ps ih =>
    cases own : p.ownCopy? with
    | none => simpa [own, copyPosition?] using ih
    | some s =>
      obtain ⟨shape, -, rfl⟩ := Parameter.isCopiedBy_of_ownCopy own
      rw [filterMap_cons_some (by rw [copyPosition?, own]; rfl), filterMap_cons_some own]
      exact congrArg Nat.succ ih

lemma length_positions (lowered : (f.lower structs).outcome = .ok g) :
    (f.positions outer).length = (g.positions outer').length := by
  obtain ⟨parameters, returns, body, -, isBody, rfl⟩ := lower_eq_ok lowered
  have silent : Script.Stmt.declaredOfAll f.copies = [] := (declaredOfAll_ownCopies _).1
  simp only [positions, occurrences, Script.Function.positions,
    Script.Stmt.positionsOfAll_append silent, length_append]
  exact congrArg₂ (· + ·) (length_ownCopies _) (Stmt.length_positionsOfAll f.body isBody)

/-- The copies of arguments mean the parameters. -/
lemma resolvesAs_ownCopies (aligned : Aligned outer outer')
    (distinct : (f.symbols.map Symbol.spelling).Nodup) {ps : List Parameter}
    (inside : ps ⊆ f.parameters) :
    ResolvesAs (ps.filterMap (f.copyPosition? outer))
      (Script.Stmt.positionsOfAll outer' (f.symbols.map Symbol.spelled) f.parameterSymbols.length
        (ps.filterMap Parameter.ownCopy?)) [] := by
  induction ps with
  | nil => exact resolvesAs_nil
  | cons p ps ih =>
    obtain ⟨isParameter, insideRest⟩ := cons_subset.mp inside
    cases own : p.ownCopy? with
    | none => simpa [own, copyPosition?] using ih insideRest
    | some s =>
      obtain ⟨shape, -, rfl⟩ := Parameter.isCopiedBy_of_ownCopy own
      let M : Script.Expr.Materials := ⟨(Expr.ident p.name p.ty).Uses, fun _ => True, fun _ => False⟩
      have name : Script.Expr.BuiltFrom M (.ident (Script.mangle p.name)) :=
        .named (Expr.uses_ident .root)
      have built : (Script.Expr.assign none (.ident (Script.mangle p.name))
          (.copy shape (.ident (Script.mangle p.name)))).BuiltFrom M :=
        .store name (name.copy shape) trivial
      have here := aligned.cons f.symbols f.parameterSymbols.length f.parameterSymbols.length
      have declared : ⟨p.name, some p.ty⟩ ∈ f.parameterSymbols := mem_map.mpr ⟨p, isParameter, rfl⟩
      have agree : AgreeIn ([] ++ f.parameterSymbols ++ Stmt.declaredOfAll f.body)
          ([] ++ f.parameterSymbols).length outer outer' ⟨p.name, some p.ty⟩ :=
        agreeIn_of_mem distinct declared
      have single : (Expr.ident p.name p.ty).uses = [⟨p.name, some p.ty⟩] := rfl
      rw [filterMap_cons_some (by rw [copyPosition?, own]; rfl), filterMap_cons_some own]
      refine resolvesAs_cons_iff.mpr ⟨(corresponds_iff_of_uses here built rfl).mpr ?_, ih insideRest⟩
      rw [single, forall_mem_singleton]
      exact agree

/-- A function resolves in its script if its scope and the blocks in it are clear and what it uses
from outside agrees there. -/
lemma resolvesAs_iff (named : site.symbols.NamesStructs) (aligned : Aligned outer outer')
    (lowered : (f.lower structs).outcome = .ok g)
    (annotated : Stmt.AllAnnotated site f.result (names.declareAll f.parameterSymbols) f.body) :
    ResolvesAs (f.positions outer) (g.positions outer') g.scopes
      ↔ (∀ b ∈ f.blocks, b.IsClear) ∧ ∀ u ∈ f.free, Agree outer outer' u := by
  obtain ⟨parameters, returns, body, isParameters, isBody, rfl⟩ := lower_eq_ok lowered
  obtain ⟨silent, noScopes⟩ : Script.Stmt.declaredOfAll f.copies = []
      ∧ Script.Stmt.scopesOfAll f.copies = [] := declaredOfAll_ownCopies _
  have declaredParameters := Parameter.declared_lowerAll isParameters
  have declared : (Script.Function.mk (Script.mangle f.name) parameters returns
      (f.copies ++ body)).declared = f.symbols.map Symbol.spelled := by
    rw [Script.Function.declared, declaredParameters, Script.Stmt.declaredOfAll,
      flatMap_append, symbols, map_append, parameterSymbols, map_map,
      ← Stmt.declaredOfAll_lower isBody]
    exact congrArg (_ ++ ·) (congrArg (· ++ _) silent)
  have count : parameters.length = f.parameterSymbols.length := by
    simpa [parameterSymbols] using congrArg List.length declaredParameters
  have noneBefore : ∀ u ∈ ([] : List Symbol), site.Knows names u := by simp
  simp only [Script.Function.positions, Script.Function.scopes, declared, count,
    Script.Stmt.positionsOfAll_append silent, Script.Stmt.scopesOfAll_append, noScopes]
  have isOwn : f.symbols = f.parameterSymbols ++ Stmt.declaredOfAll f.body := rfl
  refine resolvesAs_enter_iff isOwn f.areVariables_symbols noneBefore
    (Stmt.knows_of_mem_freeOfAll named f.body annotated) fun distinct => ?_
  have inCopies := resolvesAs_ownCopies aligned distinct f.writtenParameters_subset
  have inBody := Stmt.resolvesAs_all_iff named f.body f.parameterSymbols isOwn aligned isBody
    annotated distinct
  rw [positions, f.copies_eq, resolvesAs_append_iff (length_ownCopies _), occurrences, inBody]
  simp [inCopies]

end FunctionDef

/-! ## Items -/

lemma Script.setterName_not_mem_reservedWords (name : String) :
    setterName name ∉ reservedWords := by
  have unset : ∀ word ∈ reservedWords, ¬ "set".toList <+: word.toList := by decide
  intro reserved
  refine unset _ reserved ?_
  rw [setterName, String.toList_append]
  exact prefix_append _ _

section Module

variable {all : List Symbol} {all' : List Script.Declared} {count count' : Nat} {u : Symbol}

lemma count_le_one_iff {names : List String} {name : String} : names.count name ≤ 1
      ↔ ∀ i k : Nat, names[i]? = some name → names[k]? = some name → k = i := by
  have twice : 1 < names.count name ↔ names.Duplicate name := duplicate_iff_two_le_count.symm
  rw [← not_lt, twice, duplicate_iff_exists_distinct_get]
  constructor
  · intro once i k isFirst isSecond
    obtain ⟨first, rfl⟩ := List.getElem?_eq_some_iff.mp isFirst
    obtain ⟨second, same⟩ := List.getElem?_eq_some_iff.mp isSecond
    by_contra other
    rcases Nat.lt_or_gt_of_ne other with below | above
    · exact once ⟨⟨k, second⟩, ⟨i, first⟩, below, same.symm, rfl⟩
    · exact once ⟨⟨i, first⟩, ⟨k, second⟩, above, rfl, same.symm⟩
  · rintro unique ⟨i, k, below, isFirst, isSecond⟩
    have same := unique i k (by simp [isFirst]) (by simp [isSecond])
    exact absurd below (by omega)

/-- What the shader declares agrees in the script if the script declares its spelling once. -/
lemma agree_module_iff (mirrors : all.map Symbol.spelled <+: all') (known : count ≤ count')
    (meant : ∃ place, Means [⟨all, count⟩] u place) :
    Agree [⟨all, count⟩] [⟨all', count'⟩] u
      ↔ (all'.map Script.Declared.name).count u.spelling ≤ 1 := by
  rw [count_le_one_iff]
  constructor
  · rintro ⟨place, means, refers⟩ i k isFirst isSecond
    cases refers with
    | here _ _ _ unique =>
      rw [getElem?_map, Option.map_eq_some_iff] at isFirst isSecond
      obtain ⟨d, found, same⟩ := isFirst
      obtain ⟨d', found', same'⟩ := isSecond
      rw [unique i d found same, unique k d' found' same']
    | outward _ refersOuter => cases refersOuter
  · intro unique
    obtain ⟨place, means⟩ := meant
    refine ⟨place, means, ?_⟩
    cases means with
    | outward _ meansOuter => cases meansOuter
    | @here _ _ _ i has _ =>
      have found : all'[i]? = some u.spelled := by
        obtain ⟨more, rfl⟩ := mirrors
        have inRange : i < (all.map Symbol.spelled).length := by
          simpa using (List.getElem?_eq_some_iff.mp has.1).1
        rw [getElem?_append_left inRange, getElem?_map, has.1]
        rfl
      refine .here found rfl ?_ fun k other isOther same => unique i k ?_ ?_
      · refine has.2.imp (fun isFunction => ?_) fun declared => Nat.lt_of_lt_of_le declared known
        simp [Symbol.spelled, isFunction]
      · rw [getElem?_map, found]
        rfl
      · rw [getElem?_map, isOther, ← same]
        rfl

end Module

namespace Item

/-- The function of the script that sets a global. -/
def setters : Item → List String
  | .global g =>
    match g.storage with
    | some .uniform | some .input => [Script.setterName (Script.mangle g.name)]
    | _ => []
  | _ => []

/-- The expressions of an item, with the parameters that its script copies. -/
def positions (all : List Symbol) (count : Nat) : Item → List Position
  | .function f => f.positions [⟨all, count⟩]
  | item => item.occurrences all count

/-- The symbols that an item uses and does not declare itself. -/
def free : Item → List Symbol
  | .struct _ => []
  | .global g => g.init.toList.flatMap Expr.uses
  | .function f => f.free

/-- The scopes inside of an item. -/
def blocks : Item → List Block
  | .function f => f.blocks
  | _ => []

lemma exists_setterName (item : Item) {name : String} (mem : name ∈ item.setters) :
    ∃ own, name = Script.setterName own := by
  unfold setters at mem
  split at mem
  · split at mem
    · exact ⟨_, mem_singleton.mp mem⟩
    · exact ⟨_, mem_singleton.mp mem⟩
    · cases mem
  · cases mem

variable {structs : StructTable} {site : Site} {names : Names} {item : Item} {item' : Script.Item}
  {all : List Symbol} {all' : List Script.Declared} {count : Nat}

lemma declared_lower (lowered : (item.lower structs).outcome = .ok item') :
    item'.declared = item.symbols.map Symbol.spelled
      ∧ item'.setter = item.setters.map (⟨·, true⟩) := by
  have opened := lower_eq_ok lowered
  cases item with
  | struct declaration =>
    obtain ⟨properties, rfl⟩ := opened
    exact ⟨rfl, rfl⟩
  | global g =>
    simp only [GlobalVar.lower, bind_eq_ok] at opened
    obtain ⟨docType, -, value, -, rest⟩ := opened
    split at rest
    all_goals
      next storage =>
        cases rest
        simp only [setters, storage]
        exact ⟨rfl, rfl⟩
  | function f =>
    obtain ⟨g, isFunction, rfl⟩ := opened
    obtain ⟨_, _, _, -, -, rfl⟩ := FunctionDef.lower_eq_ok isFunction
    exact ⟨rfl, rfl⟩

lemma length_positions {count' : Nat} (lowered : (item.lower structs).outcome = .ok item') :
    (item.positions all count).length = (item'.positions all' count').length := by
  have opened := lower_eq_ok lowered
  cases item with
  | struct declaration =>
    obtain ⟨properties, rfl⟩ := opened
    rfl
  | global g =>
    obtain ⟨docType, value, -, rfl | ⟨hasSetter, rfl⟩⟩ := GlobalVar.lower_eq_ok opened
    · rfl
    · rfl
  | function f =>
    obtain ⟨g, isFunction, rfl⟩ := opened
    exact FunctionDef.length_positions isFunction

lemma knows_of_mem_free (named : site.symbols.NamesStructs)
    (annotated : item.IsAnnotated site names) : ∀ u ∈ item.free, site.Knows names u := by
  intro u mem
  cases item with
  | struct declaration => cases mem
  | global g =>
    obtain ⟨e, isInit, used⟩ := mem_flatMap.mp mem
    exact Expr.knows_of_mem_uses named (annotated e (Option.mem_toList.mp isInit)) u used
  | function f =>
    obtain ⟨inBody, unbound⟩ := mem_filter.mp mem
    exact Stmt.knows_of_declareAll (Stmt.knows_of_mem_freeOfAll named f.body annotated u inBody)
      (by simpa using unbound)

/-- An item resolves in its script if its blocks are clear, and the script declares the spelling of
what it uses from outside only once. -/
lemma resolvesAs_iff (named : site.symbols.NamesStructs)
    (explains : site.Explains names [⟨all, count⟩]) (annotated : item.IsAnnotated site names)
    (lowered : (item.lower structs).outcome = .ok item')
    (mirrors : all.map Symbol.spelled <+: all') (inside : count ≤ all'.length)
    (unreserved : ∀ d ∈ all', d.name ∉ Script.reservedWords) :
    ResolvesAs (item.positions all count) (item'.positions all' count) item'.scopes
      ↔ (∀ b ∈ item.blocks, b.IsClear)
        ∧ ∀ u ∈ item.free, (all'.map Script.Declared.name).count u.spelling ≤ 1 := by
  have aligned (count' : Nat) : Aligned [⟨all, count⟩] [⟨all', count'⟩] :=
    ⟨.cons mirrors .nil, by simpa using unreserved⟩
  have agree (count' : Nat) (later : count ≤ count') :
      (∀ u ∈ item.free, Agree [⟨all, count⟩] [⟨all', count'⟩] u)
        ↔ ∀ u ∈ item.free, (all'.map Script.Declared.name).count u.spelling ≤ 1 :=
    forall₂_congr fun u mem =>
      agree_module_iff mirrors later (explains u (knows_of_mem_free named annotated u mem))
  have opened := lower_eq_ok lowered
  cases item with
  | struct declaration =>
    obtain ⟨properties, rfl⟩ := opened
    simp [positions, occurrences, Script.Item.positions, Script.Item.scopes, blocks, free,
      resolvesAs_nil]
  | global g =>
    obtain ⟨docType, value, isValue, isItem⟩ := GlobalVar.lower_eq_ok opened
    have resolves : ResolvesAs [⟨[⟨all, count⟩], g.init⟩] [⟨[⟨all', count⟩], value⟩] []
        ↔ (∀ b ∈ ([] : List Block), b.IsClear)
          ∧ ∀ u ∈ (Item.global g).free, (all'.map Script.Declared.name).count u.spelling ≤ 1 := by
      rw [← agree count (Nat.le_refl _), resolvesAs_cons_iff,
        corresponds_iff_of_initialValue (aligned count) isValue]
      simp [resolvesAs_nil, free]
    rcases isItem with rfl | ⟨hasSetter, rfl⟩
    · exact resolves
    · exact resolves
  | function f =>
    obtain ⟨g, isFunction, rfl⟩ := opened
    rw [← agree all'.length inside]
    exact FunctionDef.resolvesAs_iff named (aligned all'.length) isFunction annotated

end Item

/-! ## Shaders -/

namespace Shader

/-- The expressions of a shader, with the parameters that its script copies. -/
def positions (shader : Shader) : List Position :=
  Item.collect (Item.positions shader.symbols) 0 shader.items

/-- The names that the script of a shader declares. -/
def spellings (shader : Shader) : List String :=
  shader.symbols.map Symbol.spelling ++ shader.items.flatMap Item.setters

/-- The script keeps what the names of the shader mean. Each of its expressions corresponds to one
of the shader, the names in it are plain ones, and no block and no function declares a name
twice. -/
structure KeepsNames (shader : Shader) (script : Script.Module) : Prop where
  positions : Forall₂ Corresponds shader.positions script.positions
  plain : ∀ p ∈ shader.positions, ∀ u ∈ p.uses, Script.root u.spelling = u.spelling
  distinct : ∀ scope ∈ script.scopes, (scope.map Script.Declared.name).Nodup

/-- The spellings of names are apart where scripts need them to be. -/
structure SpellsApart (shader : Shader) : Prop where
  blocks : ∀ item ∈ shader.items, ∀ b ∈ item.blocks, b.IsClear
  outer : ∀ item ∈ shader.items, ∀ u ∈ item.free, shader.spellings.count u.spelling ≤ 1
  plain : ∀ p ∈ shader.positions, ∀ u ∈ p.uses, Script.root u.spelling = u.spelling

instance (shader : Shader) : Decidable shader.SpellsApart :=
  decidable_of_iff ((∀ item ∈ shader.items, ∀ b ∈ item.blocks, b.IsClear)
      ∧ (∀ item ∈ shader.items, ∀ u ∈ item.free, shader.spellings.count u.spelling ≤ 1)
      ∧ ∀ p ∈ shader.positions, ∀ u ∈ p.uses, Script.root u.spelling = u.spelling)
    ⟨fun ⟨blocks, outer, plain⟩ => ⟨blocks, outer, plain⟩,
      fun ⟨blocks, outer, plain⟩ => ⟨blocks, outer, plain⟩⟩

variable {shader annotated : Shader} {script : Script.Module}

section

variable (lowered : annotated.lower.outcome = .ok script)

include lowered

lemma declared_lower : script.declared = annotated.symbols.map Symbol.spelled
      ++ (annotated.items.flatMap Item.setters).map (⟨·, true⟩) := by
  have both (items : List Item) (items' : List Script.Item) (each : Forall₂
        (fun item item' => (item.lower annotated.structTable).outcome = .ok item') items items') :
      items'.flatMap Script.Item.declared = (items.flatMap Item.symbols).map Symbol.spelled
        ∧ items'.flatMap Script.Item.setter = (items.flatMap Item.setters).map (⟨·, true⟩) := by
    induction each with
    | nil => exact ⟨rfl, rfl⟩
    | cons first rest ih =>
      obtain ⟨declared, setter⟩ := Item.declared_lower first
      simp only [flatMap_cons, map_append, declared, setter, ih.1, ih.2, and_self]
  obtain ⟨-, items⟩ := lower_eq_ok lowered
  obtain ⟨declared, setters⟩ := both _ _ items
  rw [Script.Module.declared, declared, setters, symbols]

lemma names_lower : script.declared.map Script.Declared.name = annotated.spellings := by
  rw [declared_lower lowered, spellings, map_append, map_map, map_map]
  exact congrArg (_ ++ ·) (map_id _)

lemma unreserved_lower : ∀ d ∈ script.declared, d.name ∉ Script.reservedWords := by
  rw [declared_lower lowered]
  refine forall_mem_append.mpr ⟨forall_mem_map.mpr fun s _ => ?_,
    forall_mem_map.mpr fun name mem => ?_⟩
  · exact Script.mangle_not_mem_reservedWords s.name
  · obtain ⟨item, -, isSetter⟩ := mem_flatMap.mp mem
    obtain ⟨own, rfl⟩ := item.exists_setterName isSetter
    exact Script.setterName_not_mem_reservedWords own

end

/-- The items from some place on resolve in their script. -/
lemma resolvesAs_items_iff (inferred : shader.infer.outcome = .ok annotated)
    (lowered : annotated.lower.outcome = .ok script) {before items : List Item}
    {items' : List Script.Item} (split : annotated.items = before ++ items)
    (each : Forall₂ (fun item item' => (item.lower annotated.structTable).outcome = .ok item')
      items items') :
    ResolvesAs
        (Item.collect (Item.positions annotated.symbols) (before.flatMap Item.symbols).length items)
        (Script.Item.positionsOfAll script.declared (before.flatMap Item.symbols).length items')
        (items'.flatMap Script.Item.scopes)
      ↔ (∀ item ∈ items, ∀ b ∈ item.blocks, b.IsClear)
        ∧ ∀ item ∈ items, ∀ u ∈ item.free, annotated.spellings.count u.spelling ≤ 1 := by
  induction each generalizing before with
  | nil => simp [Item.collect, Script.Item.positionsOfAll, resolvesAs_nil]
  | @cons item item' items items' first rest ih =>
    obtain ⟨site, names, named, explains, isAnnotated⟩ := exists_isAnnotated inferred split
    have mirrors : annotated.symbols.map Symbol.spelled <+: script.declared := by
      rw [declared_lower lowered]
      exact prefix_append _ _
    have inside : (before.flatMap Item.symbols).length ≤ script.declared.length := by
      refine Nat.le_trans ?_ mirrors.length_le
      rw [length_map, symbols, split, flatMap_append, length_append]
      exact Nat.le_add_right _ _
    have own := Item.resolvesAs_iff named explains isAnnotated first mirrors inside
      (unreserved_lower lowered)
    rw [names_lower lowered] at own
    have others := @ih (before ++ [item]) (by simpa using split)
    simp only [flatMap_append, flatMap_singleton, length_append] at others
    simp only [Item.collect, Script.Item.positionsOfAll, (Item.declared_lower first).1,
      length_map, flatMap_cons]
    rw [resolvesAs_append_iff (Item.length_positions first), own, others]
    simp only [forall_mem_cons]
    tauto

/-- What an accepted shader uses has one meaning, and its script keeps all meanings exactly if the
spellings of names are apart. -/
theorem lower_keeps_names (inferred : shader.infer.outcome = .ok annotated)
    (lowered : annotated.lower.outcome = .ok script) :
    (∀ p ∈ annotated.occurrences, ∀ u ∈ p.uses, ∃! place, Means p.scopes u place)
      ∧ (annotated.KeepsNames script ↔ annotated.SpellsApart) := by
  refine ⟨existsUnique_means inferred, ?_⟩
  obtain ⟨-, each⟩ := lower_eq_ok lowered
  have resolves := resolvesAs_items_iff inferred lowered (List.nil_append _).symm each
  constructor
  · rintro ⟨positions, plain, distinct⟩
    obtain ⟨blocks, outer⟩ := resolves.mp ⟨positions, distinct⟩
    exact ⟨blocks, outer, plain⟩
  · rintro ⟨blocks, outer, plain⟩
    obtain ⟨positions, distinct⟩ := resolves.mpr ⟨blocks, outer⟩
    exact ⟨positions, plain, distinct⟩

/-- A shader whose blocks hide a parameter that they do not use. -/
def shadowed : Shader :=
  let x := Expr.ident "x" .float
  let sum := Expr.ident "let" .float
  let scale := Expr.ident "scale" .float
  ⟨[.global ⟨"scale", .float, some .uniform, none⟩,
    .function
      { name := "twice"
        parameters := [⟨"x", .float, .input⟩]
        result := .float
        body := [.ret (some (.binary .add x x .float))] },
    .function
      { name := "f"
        parameters := [⟨"x", .float, .input⟩]
        result := .float
        body :=
          [.declare "let" .float (some (.binary .multiply (.call "twice" [x] .float) scale .float)),
            .block [.declare "x" .float (some sum), .eval (.assign none sum x .float)],
            .loop (some (.declare "x" .float (some scale))) (some (.binary .less x sum .bool))
              (some (.assign (some .add) x sum .float)) [.eval (.assign none sum scale .float)],
            .ret (some (.binary .add sum x .float))] }]⟩

/-- Its script hides the parameter in the same blocks. -/
def shadowedScript : Script.Module :=
  let x := Script.Expr.ident "x"
  let sum := Script.Expr.ident "let_"
  let scale := Script.Expr.ident "scale"
  ⟨[.global ⟨"scale", "number"⟩ (.int 0) true,
    .function
      { name := "twice"
        parameters := [⟨"x", "number"⟩]
        returns := some "number"
        body := [.ret (some (.binary .add x x))] },
    .function
      { name := "f"
        parameters := [⟨"x", "number"⟩]
        returns := some "number"
        body :=
          [.declare "let_" (.binary .multiply (.callOf "twice" [x]) scale),
            .block [.declare "x" sum, .eval (.assign none sum x)],
            .loop (some (.declare "x" scale)) (some (.binary .less x sum))
              (some (.assign (some .add) x sum)) [.eval (.assign none sum scale)],
            .ret (some (.binary .add sum x))] }]⟩

/-- The ten occurrences in `shadowed` keep their meaning. -/
theorem lower_keeps_names_shadowed :
    shadowed.infer.outcome = .ok shadowed ∧ shadowed.lower.outcome = .ok shadowedScript
      ∧ shadowed.SpellsApart ∧ shadowed.occurrences.length = 10
      ∧ (∀ p ∈ shadowed.occurrences, ∀ u ∈ p.uses, ∃! place, Means p.scopes u place)
      ∧ shadowed.KeepsNames shadowedScript := by
  have inferred : shadowed.infer.outcome = .ok shadowed := rfl
  have lowered : shadowed.lower.outcome = .ok shadowedScript := rfl
  have apart : shadowed.SpellsApart := by decide
  obtain ⟨meant, keeps⟩ := lower_keeps_names inferred lowered
  exact ⟨inferred, lowered, apart, rfl, meant, keeps.mpr apart⟩

/-- A function with a block that starts a variable from the parameter of the same name. -/
def initialized : Shader :=
  let x := Expr.ident "x" .float
  ⟨[.function
    { name := "f"
      parameters := [⟨"x", .float, .input⟩]
      result := .float
      body := [.block [.declare "x" .float (some x), .ret (some x)]] }]⟩

/-- In its script the variable is started from itself. -/
def initializedScript : Script.Module :=
  let x := Script.Expr.ident "x"
  ⟨[.function
    { name := "f"
      parameters := [⟨"x", "number"⟩]
      returns := some "number"
      body := [.block [.declare "x" x, .ret (some x)]] }]⟩

/-- Lowering does not keep the meaning of a name in the initializer of a variable of that name. -/
theorem lower_loses_names :
    initialized.infer.outcome = .ok initialized
      ∧ initialized.lower.outcome = .ok initializedScript
      ∧ ¬ initialized.KeepsNames initializedScript := by
  refine ⟨rfl, rfl, fun keeps => ?_⟩
  obtain ⟨first, -⟩ := List.forall₂_cons.mp keeps.positions
  have agree := first.agree ⟨"x", some .float⟩ (by decide)
  rcases agreeIn_iff.mp agree with ⟨i, ⟨-, isFunction | declared⟩, -⟩ | ⟨absent, -⟩
  · cases isFunction
  · exact absurd declared (Nat.not_lt_zero i)
  · exact absent ⟨"x", some .float⟩ (List.mem_singleton_self _) rfl

end Shader

end ShaderAlgebra
