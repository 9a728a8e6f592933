import ShaderAlgebra.Proofs.Script.Origin
import ShaderAlgebra.Proofs.Script.Preservation
import ShaderAlgebra.Proofs.Script.Scoping
import ShaderAlgebra.Proofs.Typing.Meaning

/-!
# Names of lowered statements

A name of a shader and its spelling in the script agree if they mean the same declaration
(`Agree`). Places are compared with all that stands in them (`Corresponds`): the scopes around them
declare the same, and every name in the script is one that the shader uses there and that agrees.

Statements resolve in their script exactly if their blocks are clear and what they leave free agrees
where they stand (`Stmt.resolvesAs_iff`). A block is clear if the names that it declares are spelled
differently, and not like a name that the code in it uses from outside (`Block.IsClear`). The
induction carries both directions, so nothing else can go wrong.
-/

namespace ShaderAlgebra

open List

variable {scopes : List (List Script.Declared)} {ps : List Position} {qs : List Script.Position}

/-! ## Corresponding scopes -/

/-- What a script declares for the symbol. -/
def Symbol.spelled (s : Symbol) : Script.Declared := ⟨s.spelling, s.ty.isNone⟩

/-- A scope of a script declares what the scope of the shader does, at the same places, and maybe
more after it. -/
def Mirrors (scope : Scope) (scope' : Script.Scope) : Prop :=
  scope.symbols.map Symbol.spelled <+: scope'.declared

/-- The symbol and its spelling mean the same declaration. -/
def Agree (scopes : List Scope) (scopes' : List Script.Scope) (u : Symbol) : Prop :=
  ∃ place, Means scopes u place ∧ Script.Refers scopes' u.spelling place

/-- The symbol agrees in a scope of `own` symbols, of which `count` are declared by now. -/
def AgreeIn (own : List Symbol) (count : Nat) (outer : List Scope) (outer' : List Script.Scope)
    (u : Symbol) : Prop :=
  Agree (⟨own, count⟩ :: outer) (⟨own.map Symbol.spelled, count⟩ :: outer') u

section Agree

variable {own pre mid post : List Symbol} {count : Nat} {outer : List Scope}
  {outer' : List Script.Scope} {u : Symbol}

/-- A symbol agrees in a scope if it is declared there, and nothing else is spelled like it, or if
nothing there is spelled like it and it agrees outside. -/
lemma agreeIn_iff : AgreeIn own count outer outer' u ↔ (∃ i, Scope.Has ⟨own, count⟩ i u
        ∧ ∀ (k : Nat) (s : Symbol), own[k]? = some s → s.spelling = u.spelling → k = i)
      ∨ (∀ s ∈ own, s.spelling ≠ u.spelling) ∧ Agree outer outer' u := by
  constructor
  · rintro ⟨place, means, refers⟩
    cases means with
    | here has later =>
      cases refers with
      | here _ _ _ unique =>
        refine .inl ⟨_, has, fun k s found same => unique k s.spelled ?_ same⟩
        rw [getElem?_map, found]
        rfl
    | outward unknown meansOuter =>
      cases refers with
      | outward absent refersOuter =>
        exact .inr ⟨fun s mem => absent s.spelled (mem_map_of_mem mem), _, meansOuter, refersOuter⟩
  · rintro (⟨i, has, unique⟩ | ⟨absent, ⟨depth, i⟩, meansOuter, refersOuter⟩)
    · refine ⟨(0, i), .here has fun k s after hasOther => ?_, .here (d := u.spelled) ?_ rfl ?_ ?_⟩
      · -- Symbols that are alike are spelled the same.
        by_contra alike
        have same : s.name = u.name := by simp_all [Symbol.isAlike]
        exact absurd (unique k s hasOther.1 (congrArg Script.mangle same)) (by omega)
      · rw [getElem?_map, has.1]
        rfl
      · exact has.2.imp (fun isFunction => by simp [Symbol.spelled, isFunction]) id
      · intro k other found same
        obtain ⟨s, isAt, rfl⟩ := Option.map_eq_some_iff.mp (getElem?_map ▸ found)
        exact unique k s isAt same
    · refine ⟨(depth + 1, i), .outward (fun k s has => ?_) meansOuter, .outward ?_ refersOuter⟩
      · by_contra alike
        have same : s.name = u.name := by simp_all [Symbol.isAlike]
        exact absent s (mem_of_getElem? has.1) (congrArg Script.mangle same)
      · exact forall_mem_map.mpr absent

/-- What is declared by now agrees, if no two spellings are the same. -/
lemma agreeIn_of_mem (distinct : ((pre ++ mid ++ post).map Symbol.spelling).Nodup)
    (mem : u ∈ mid) : AgreeIn (pre ++ mid ++ post) (pre ++ mid).length outer outer' u := by
  obtain ⟨i, inRange, rfl⟩ := mem_iff_getElem.mp mem
  have found : (pre ++ mid ++ post)[pre.length + i]? = some mid[i] := by grind
  refine agreeIn_iff.mpr (.inl ⟨pre.length + i, ⟨found, .inr (by simpa using inRange)⟩, ?_⟩)
  intro k s isAt same
  refine ((getElem?_inj ?_ distinct).mp ?_).symm
  · simpa using (List.getElem?_eq_some_iff.mp found).1
  · rw [getElem?_map, getElem?_map, found, isAt, Option.map_some, Option.map_some, same]

lemma not_mem_of_unbound (unbound : u.isBoundBy mid = false) : u ∉ mid := fun mem => by
  simpa [Symbol.isAlike_refl] using Symbol.isBoundBy_eq_false.mp unbound u mem

variable {site : Site} {names : Names} {used : List Symbol}

/-- A known symbol whose name a scope declares is the one that it declares. -/
lemma mem_of_knows (areVariables : ∀ s ∈ mid, s.ty ≠ none)
    (known : site.Knows (names.declareAll mid) u) (bound : u.isBoundBy mid) : u ∈ mid := by
  cases isVariable : u.ty with
  | none =>
    obtain ⟨s, mem, alike⟩ := any_eq_true.mp bound
    exact absurd (by simp_all [Symbol.isAlike]) (areVariables s mem)
  | some ty =>
    simp only [Site.Knows, isVariable] at known
    rcases Names.declareAll_eq_some isVariable known with ⟨i, found, -⟩ | ⟨unbound, -⟩
    · exact mem_of_getElem? found
    · exact absurd bound (by simp [unbound])

/-- Known symbols agree after declarations if those that are not declared by them agree before. -/
lemma forall_agreeIn_after_iff (areVariables : ∀ s ∈ mid, s.ty ≠ none)
    (distinct : ((pre ++ mid ++ post).map Symbol.spelling).Nodup)
    (known : ∀ u ∈ used, site.Knows (names.declareAll mid) u) :
    (∀ u ∈ used, AgreeIn (pre ++ mid ++ post) (pre ++ mid).length outer outer' u)
      ↔ ∀ u ∈ used.filter (!·.isBoundBy mid),
        AgreeIn (pre ++ mid ++ post) pre.length outer outer' u := by
  simp only [mem_filter, Bool.not_eq_true', and_imp]
  refine forall₂_congr fun u mem => ?_
  by_cases bound : u.isBoundBy mid
  · simp only [agreeIn_of_mem distinct (mem_of_knows areVariables (known u mem) bound), bound,
      Bool.true_eq_false, false_imp_iff]
  · have unbound := Bool.eq_false_iff.mpr bound
    have has (i : Nat) : Scope.Has ⟨pre ++ mid ++ post, (pre ++ mid).length⟩ i u
        ↔ Scope.Has ⟨pre ++ mid ++ post, pre.length⟩ i u := by
      have notMid := not_mem_of_unbound unbound
      refine and_congr_right fun found => or_congr_right ?_
      grind
    simp only [unbound, true_imp_iff, agreeIn_iff, has]

/-- Known symbols agree in a scope if for those that it has not declared nothing in it is spelled
the same, and they agree outside. -/
lemma forall_agreeIn_enter_iff (areVariables : ∀ s ∈ mid ++ post, s.ty ≠ none)
    (distinct : ((mid ++ post).map Symbol.spelling).Nodup)
    (known : ∀ u ∈ used, site.Knows (names.declareAll mid) u) :
    (∀ u ∈ used, AgreeIn (mid ++ post) mid.length outer outer' u)
      ↔ ∀ u ∈ used.filter (!·.isBoundBy mid),
        (∀ s ∈ mid ++ post, s.spelling ≠ u.spelling) ∧ Agree outer outer' u := by
  have after : (∀ u ∈ used, AgreeIn ([] ++ mid ++ post) ([] ++ mid).length outer outer' u) ↔ _ :=
    forall_agreeIn_after_iff (fun s mem => areVariables s (by simp [mem])) distinct known
  refine after.trans (forall₂_congr fun u mem => ?_)
  -- Nothing is declared yet.
  have unknown : ¬ ∃ i, Scope.Has ⟨mid ++ post, 0⟩ i u ∧ ∀ (k : Nat) (s : Symbol),
      (mid ++ post)[k]? = some s → s.spelling = u.spelling → k = i := by
    rintro ⟨i, ⟨found, isFunction | declared⟩, -⟩
    · exact areVariables u (mem_of_getElem? found) isFunction
    · exact absurd declared (Nat.not_lt_zero i)
  exact agreeIn_iff.trans (or_iff_right unknown)

end Agree

/-! ## Corresponding positions -/

/-- Scopes around a place in a shader and around its place in the script, which declare the same
and no name that scripts reserve. -/
structure Aligned (scopes : List Scope) (scopes' : List Script.Scope) : Prop where
  mirrors : Forall₂ Mirrors scopes scopes'
  unreserved : ∀ scope ∈ scopes', ∀ d ∈ scope.declared, d.name ∉ Script.reservedWords

lemma Aligned.cons {scopes : List Scope} {scopes' : List Script.Scope}
    (aligned : Aligned scopes scopes') (own : List Symbol) (count count' : Nat) :
    Aligned (⟨own, count⟩ :: scopes) (⟨own.map Symbol.spelled, count'⟩ :: scopes') where
  mirrors := .cons (prefix_refl _) aligned.mirrors
  unreserved := by
    refine forall_mem_cons.mpr ⟨forall_mem_map.mpr fun s _ => ?_, aligned.unreserved⟩
    exact Script.mangle_not_mem_reservedWords s.name

/-- A place in a script is as the place in the shader. The scopes around it declare the same, each
name in it is a path into the library that nothing hides, or a name that the shader uses there, and
what the shader uses there means the same in both. -/
structure Corresponds (p : Position) (q : Script.Position) : Prop where
  mirrors : Forall₂ Mirrors p.scopes q.scopes
  occurs : ∀ name, .ident name ∈ q.expr.nodes →
    (Script.root name ∈ Script.reservedWords
      ∧ ∀ scope ∈ q.scopes, ∀ d ∈ scope.declared, d.name ≠ Script.root name)
    ∨ ∃ u ∈ p.uses, name = u.spelling
  agree : ∀ u ∈ p.uses, Agree p.scopes q.scopes u

section Corresponds

variable {scopes : List Scope} {scopes' : List Script.Scope} {M : Script.Expr.Materials}
  {j : Script.Expr}

/-- A script that is built from what is used at a place corresponds to it if that agrees. -/
lemma corresponds_iff_of_builtFrom {p : Position} (aligned : Aligned p.scopes scopes')
    (built : j.BuiltFrom M) (named : ∀ name, M.named name → ∃ u ∈ p.uses, name = u.spelling) :
    Corresponds p ⟨scopes', j⟩ ↔ ∀ u ∈ p.uses, Agree p.scopes scopes' u := by
  refine ⟨Corresponds.agree, fun agree => ⟨aligned.mirrors, fun name mem => ?_, agree⟩⟩
  rcases built _ mem with used | reserved
  · exact .inr (named name used)
  · refine .inl ⟨reserved, fun scope inside d declared same => ?_⟩
    exact aligned.unreserved scope inside d declared (same ▸ reserved)

/-- An expression corresponds to its script if its names agree. -/
lemma corresponds_iff_of_uses (aligned : Aligned scopes scopes') {e : Expr}
    (built : j.BuiltFrom M) (named : M.named = e.Uses) :
    Corresponds ⟨scopes, some e⟩ ⟨scopes', j⟩ ↔ ∀ u ∈ e.uses, Agree scopes scopes' u := by
  have sameUses : (⟨scopes, some e⟩ : Position).uses = e.uses := by simp [Position.uses]
  rw [← sameUses]
  refine corresponds_iff_of_builtFrom aligned built fun name uses => ?_
  rwa [sameUses, ← Expr.Uses, ← named]

lemma corresponds_iff_of_initialValue (aligned : Aligned scopes scopes') {structs : StructTable}
    {ty : Ty} {name : String} {init : Option Expr}
    (lowered : ty.initialValue structs name init = .ok j) :
    Corresponds ⟨scopes, init⟩ ⟨scopes', j⟩
      ↔ ∀ u ∈ init.toList.flatMap Expr.uses, Agree scopes scopes' u := by
  rcases Ty.initialValue_eq_ok lowered with ⟨e, isInit, loweredValue⟩ | ⟨rfl, isDefault⟩
  · obtain rfl : init = some e := isInit
    have built := Expr.builtFrom_lowerValue (e.isBuilt structs) loweredValue
    simpa using corresponds_iff_of_uses aligned built rfl
  · have built : j.BuiltFrom ⟨fun _ => False, fun _ => True, fun _ => False⟩ :=
      isDefault.builtFrom fun _ _ _ => trivial
    exact corresponds_iff_of_builtFrom aligned built fun _ => False.elim

end Corresponds

/-! ## Statements -/

/-- The positions of a piece of a shader correspond to those of its script, and no scope of the
script declares a name twice. -/
structure ResolvesAs (ps : List Position) (qs : List Script.Position)
    (scopes : List (List Script.Declared)) : Prop where
  positions : Forall₂ Corresponds ps qs
  distinct : ∀ scope ∈ scopes, (scope.map Script.Declared.name).Nodup

/-- The names that a block declares are spelled differently, and not like what the code in it uses
from outside. -/
structure Block.IsClear (b : Block) : Prop where
  distinct : (b.declared.map Symbol.spelling).Nodup
  apart : ∀ u ∈ b.free, ∀ s ∈ b.declared, s.spelling ≠ u.spelling

instance (b : Block) : Decidable b.IsClear :=
  decidable_of_iff ((b.declared.map Symbol.spelling).Nodup
      ∧ ∀ u ∈ b.free, ∀ s ∈ b.declared, s.spelling ≠ u.spelling)
    ⟨fun ⟨distinct, apart⟩ => ⟨distinct, apart⟩, fun ⟨distinct, apart⟩ => ⟨distinct, apart⟩⟩

lemma resolvesAs_nil : ResolvesAs [] [] [] := ⟨.nil, by simp⟩

lemma resolvesAs_cons_iff {p : Position} {q : Script.Position} :
    ResolvesAs (p :: ps) (q :: qs) scopes ↔ Corresponds p q ∧ ResolvesAs ps qs scopes := by
  constructor
  · rintro ⟨positions, distinct⟩
    obtain ⟨first, rest⟩ := forall₂_cons.mp positions
    exact ⟨first, rest, distinct⟩
  · rintro ⟨first, rest, distinct⟩
    exact ⟨.cons first rest, distinct⟩

lemma resolvesAs_cons_scope_iff {own : List Symbol} :
    ResolvesAs ps qs (own.map Symbol.spelled :: scopes)
      ↔ (own.map Symbol.spelling).Nodup ∧ ResolvesAs ps qs scopes := by
  have spelled : (own.map Symbol.spelled).map Script.Declared.name = own.map Symbol.spelling := by
    rw [map_map]
    rfl
  constructor
  · rintro ⟨positions, distinct⟩
    obtain ⟨first, rest⟩ := forall_mem_cons.mp distinct
    exact ⟨spelled ▸ first, positions, rest⟩
  · rintro ⟨first, positions, rest⟩
    exact ⟨positions, forall_mem_cons.mpr ⟨spelled ▸ first, rest⟩⟩

lemma resolvesAs_append_iff {ps' : List Position} {qs' : List Script.Position}
    {scopes' : List (List Script.Declared)} (sameLength : ps.length = qs.length) :
    ResolvesAs (ps ++ ps') (qs ++ qs') (scopes ++ scopes')
      ↔ ResolvesAs ps qs scopes ∧ ResolvesAs ps' qs' scopes' := by
  constructor
  · rintro ⟨positions, distinct⟩
    have first := forall₂_take_append _ _ _ positions
    have rest := forall₂_drop_append _ _ _ positions
    rw [← sameLength, take_left] at first
    rw [← sameLength, drop_left] at rest
    simp only [mem_append, or_imp, forall_and] at distinct
    exact ⟨⟨first, distinct.1⟩, rest, distinct.2⟩
  · rintro ⟨⟨first, firstDistinct⟩, rest, restDistinct⟩
    refine ⟨rel_append first rest, ?_⟩
    simpa only [mem_append, or_imp, forall_and] using ⟨firstDistinct, restDistinct⟩

lemma resolvesAs_append_nil_iff {ps' : List Position} {qs' : List Script.Position}
    (sameLength : ps.length = qs.length) :
    ResolvesAs (ps ++ ps') (qs ++ qs') scopes
      ↔ ResolvesAs ps qs scopes ∧ ResolvesAs ps' qs' [] := by
  rw [← resolvesAs_append_iff sameLength, append_nil]

/-- Code in a scope of its own: what it uses `before` the scope declares something, and what it uses
once the scope has declared `mid`. -/
lemma resolvesAs_enter_iff {site : Site} {names : Names} {outer : List Scope}
    {outer' : List Script.Scope} {own mid post before used : List Symbol} {blocks : List Block}
    (isOwn : own = mid ++ post) (areVariables : ∀ s ∈ own, s.ty ≠ none)
    (knownBefore : ∀ u ∈ before, site.Knows names u)
    (known : ∀ u ∈ used, site.Knows (names.declareAll mid) u)
    (inside : (own.map Symbol.spelling).Nodup → (ResolvesAs ps qs scopes ↔ (∀ b ∈ blocks, b.IsClear)
        ∧ (∀ u ∈ before, AgreeIn own 0 outer outer' u)
        ∧ ∀ u ∈ used, AgreeIn own mid.length outer outer' u)) :
    ResolvesAs ps qs (own.map Symbol.spelled :: scopes)
      ↔ (∀ b ∈ ⟨own, before ++ used.filter (!·.isBoundBy mid)⟩ :: blocks, b.IsClear)
        ∧ ∀ u ∈ before ++ used.filter (!·.isBoundBy mid), Agree outer outer' u := by
  subst isOwn
  have entered (distinct : ((mid ++ post).map Symbol.spelling).Nodup) :
      ((∀ u ∈ before, AgreeIn (mid ++ post) 0 outer outer' u)
        ∧ ∀ u ∈ used, AgreeIn (mid ++ post) mid.length outer outer' u)
      ↔ ∀ u ∈ before ++ used.filter (!·.isBoundBy mid),
        (∀ s ∈ mid ++ post, s.spelling ≠ u.spelling) ∧ Agree outer outer' u := by
    have all : before.filter (!·.isBoundBy []) = before := by simp [Symbol.isBoundBy]
    have atStart : (∀ u ∈ before, AgreeIn ([] ++ (mid ++ post)) 0 outer outer' u) ↔ _ :=
      forall_agreeIn_enter_iff areVariables distinct knownBefore
    rw [all] at atStart
    rw [forall_mem_append]
    exact and_congr atStart (forall_agreeIn_enter_iff areVariables distinct known)
  rw [resolvesAs_cons_scope_iff, forall_mem_cons]
  constructor
  · rintro ⟨distinct, resolves⟩
    obtain ⟨clear, agree⟩ := (inside distinct).mp resolves
    have agreeOutside := (entered distinct).mp agree
    exact ⟨⟨⟨distinct, fun u mem => (agreeOutside u mem).1⟩, clear⟩,
      fun u mem => (agreeOutside u mem).2⟩
  · rintro ⟨⟨⟨distinct, apart⟩, clear⟩, agree⟩
    refine ⟨distinct, (inside distinct).mpr ⟨clear, ?_⟩⟩
    exact (entered distinct).mpr fun u mem => ⟨apart u mem, agree u mem⟩

namespace Stmt

section Lowering

variable {structs : StructTable}

/-- A lowered statement declares the same names, as they are spelled. -/
lemma declared_lower {s : Stmt} {t : Script.Stmt} (lowered : s.lower structs = .ok t) :
    t.declared = s.declared.map Symbol.spelled := by
  have opened := lower_eq_ok lowered
  cases s with
  | declare | eval | ret | block =>
    obtain ⟨_, -, rfl⟩ := opened
    rfl
  | branch =>
    obtain ⟨_, -, _, -, _, -, rfl⟩ := opened
    rfl
  | loop =>
    obtain ⟨_, -, _, -, _, -, _, -, rfl⟩ := opened
    rfl
  | leave | next =>
    cases opened
    rfl

lemma declaredOfAll_lower {ss : List Stmt} {ts : List Script.Stmt}
    (lowered : lowerAll structs ss = .ok ts) :
    Script.Stmt.declaredOfAll ts = (declaredOfAll ss).map Symbol.spelled := by
  induction ss generalizing ts with
  | nil => cases lowered; rfl
  | cons s ss ih =>
    obtain ⟨t, isFirst, ts, isRest, rfl⟩ := lowerAll_cons_eq_ok lowered
    simp only [declaredOfAll, Script.Stmt.declaredOfAll, flatMap_cons, map_append,
      declared_lower isFirst] at ih ⊢
    rw [ih isRest]

lemma declaredOfOption_lower {s : Option Stmt} {t : Option Script.Stmt}
    (lowered : lowerOption structs s = .ok t) :
    Script.Stmt.declaredOfOption t = (declaredOfOption s).map Symbol.spelled := by
  cases s with
  | none => cases lowered; rfl
  | some s =>
    obtain ⟨t, isLowered, rfl⟩ := lowerOption_some_eq_ok lowered
    simp [declaredOfOption, Script.Stmt.declaredOfOption, declared_lower isLowered]

lemma length_toList_mapM {f : Expr → Lowered Script.Expr} {e : Option Expr}
    {j : Option Script.Expr} (lowered : e.mapM f = .ok j) : j.toList.length = e.toList.length := by
  cases e with
  | none => cases lowered; rfl
  | some e =>
    obtain ⟨_, -, rfl⟩ := map_eq_ok.mp lowered
    rfl

mutual

/-- A script has an expression for each of those of the shader, and one for each declaration. -/
lemma length_positions {outer : List Scope} {outer' : List Script.Scope} : (s : Stmt) →
    ∀ {own own' count count' t}, s.lower structs = .ok t →
    (s.positions outer own count).length = (t.positions outer' own' count').length
  | .declare .., _, _, _, _, _, lowered | .eval e, _, _, _, _, _, lowered => by
    obtain ⟨_, -, rfl⟩ := lower_eq_ok lowered
    rfl
  | .ret value, _, _, _, _, _, lowered => by
    obtain ⟨value', isValue, rfl⟩ := lower_eq_ok lowered
    simp [positions, Script.Stmt.positions, length_toList_mapM isValue]
  | .branch test accept reject, _, _, _, _, _, lowered => by
    obtain ⟨_, -, _, isAccept, _, isReject, rfl⟩ := lower_eq_ok lowered
    simp only [positions, Script.Stmt.positions, length_cons, length_append]
    rw [length_positionsOfAll accept isAccept, length_positionsOfAll reject isReject]
  | .loop init test step body, _, _, _, _, _, lowered => by
    obtain ⟨_, isInit, _, isCondition, _, isStep, _, isBody, rfl⟩ := lower_eq_ok lowered
    simp only [positions, Script.Stmt.positions, length_append, length_map,
      length_toList_mapM isCondition, length_toList_mapM isStep]
    rw [length_positionsOfOption init isInit, length_positionsOfAll body isBody]
  | .block body, _, _, _, _, _, lowered => by
    obtain ⟨body', isBody, rfl⟩ := lower_eq_ok lowered
    exact length_positionsOfAll body isBody
  | .leave, _, _, _, _, _, lowered | .next, _, _, _, _, _, lowered => by cases lowered; rfl

lemma length_positionsOfOption {outer : List Scope} {outer' : List Script.Scope} :
    (s : Option Stmt) → ∀ {own own' count count' t}, lowerOption structs s = .ok t →
    (positionsOfOption outer own count s).length
      = (Script.Stmt.positionsOfOption outer' own' count' t).length
  | none, _, _, _, _, _, lowered => by cases lowered; rfl
  | some s, _, _, _, _, _, lowered => by
    obtain ⟨t, isLowered, rfl⟩ := lowerOption_some_eq_ok lowered
    exact length_positions s isLowered

lemma length_positionsOfAll {outer : List Scope} {outer' : List Script.Scope} :
    (ss : List Stmt) → ∀ {own own' count count' ts}, lowerAll structs ss = .ok ts →
    (positionsOfAll outer own count ss).length
      = (Script.Stmt.positionsOfAll outer' own' count' ts).length
  | [], _, _, _, _, _, lowered => by cases lowered; rfl
  | s :: ss, _, _, _, _, _, lowered => by
    obtain ⟨t, isFirst, ts, isRest, rfl⟩ := lowerAll_cons_eq_ok lowered
    simp only [positionsOfAll, Script.Stmt.positionsOfAll, length_append]
    rw [length_positions s isFirst, length_positionsOfAll ss isRest]

end

end Lowering

section Resolution

variable {structs : StructTable} {site : Site} {result : Ty} {outer : List Scope}
  {outer' : List Script.Scope} {names : Names}

/-- A block, given when its statements resolve. -/
lemma resolvesAs_block_iff (named : site.symbols.NamesStructs) {ss : List Stmt}
    {ts : List Script.Stmt} (lowered : lowerAll structs ss = .ok ts)
    (annotated : AllAnnotated site result names ss)
    (inside : ((declaredOfAll ss).map Symbol.spelling).Nodup →
      (ResolvesAs (positionsOfAll outer (declaredOfAll ss) 0 ss)
          (Script.Stmt.positionsOfAll outer' ((declaredOfAll ss).map Symbol.spelled) 0 ts)
          (Script.Stmt.scopesOfAll ts)
        ↔ (∀ b ∈ blocksOfAll ss, b.IsClear)
          ∧ ∀ u ∈ freeOfAll ss, AgreeIn (declaredOfAll ss) 0 outer outer' u)) :
    ResolvesAs (positionsOfAll outer (declaredOfAll ss) 0 ss)
        (Script.Stmt.positionsOfAll outer' (Script.Stmt.declaredOfAll ts) 0 ts)
        (Script.Stmt.declaredOfAll ts :: Script.Stmt.scopesOfAll ts)
      ↔ (∀ b ∈ blockOf ss :: blocksOfAll ss, b.IsClear)
        ∧ ∀ u ∈ freeOfAll ss, Agree outer outer' u := by
  have noneAfter : ∀ u ∈ ([] : List Symbol), site.Knows (names.declareAll []) u := by simp
  have entered := resolvesAs_enter_iff (nil_append _).symm (areVariables_declaredOfAll ss)
    (knows_of_mem_freeOfAll named ss annotated) noneAfter
    fun distinct => by simpa using inside distinct
  rw [filter_nil, append_nil] at entered
  rw [declaredOfAll_lower lowered]
  exact entered

lemma resolvesAs_leaf_iff {p : Position} {q : Script.Position} {used : List Symbol}
    {own : List Symbol} {count : Nat}
    (iff : Corresponds p q ↔ ∀ u ∈ used, AgreeIn own count outer outer' u) :
    ResolvesAs [p] [q] []
      ↔ (∀ b ∈ ([] : List Block), b.IsClear) ∧ ∀ u ∈ used, AgreeIn own count outer outer' u := by
  simpa [resolvesAs_cons_iff, resolvesAs_nil] using iff

lemma resolvesAs_exprs_iff {scopes : List Scope} {scopes' : List Script.Scope}
    (aligned : Aligned scopes scopes') {e : Option Expr} {j : Option Script.Expr}
    (lowered : e.mapM (fun e => e.lower structs) = .ok j) :
    ResolvesAs (e.toList.map fun e => ⟨scopes, some e⟩) (j.toList.map fun j => ⟨scopes', j⟩) []
      ↔ ∀ u ∈ e.toList.flatMap Expr.uses, Agree scopes scopes' u := by
  cases e with
  | none =>
    cases lowered
    simp [resolvesAs_nil]
  | some e =>
    obtain ⟨j, isLowered, rfl⟩ := map_eq_ok.mp lowered
    have built := (e.isBuilt structs).lower isLowered
    simpa [resolvesAs_cons_iff, resolvesAs_nil] using corresponds_iff_of_uses aligned built rfl

mutual

/-- A statement resolves in its script if its blocks are clear and what it leaves free agrees. -/
lemma resolvesAs_iff (named : site.symbols.NamesStructs) : (s : Stmt) →
    (own : List Symbol) → (count : Nat) →
    ∀ {outer outer'} {names : Names} {t : Script.Stmt},
    Aligned outer outer' → s.lower structs = .ok t → s.IsAnnotated site result names →
    (ResolvesAs (s.positions outer own count)
        (t.positions outer' (own.map Symbol.spelled) count) t.scopes
      ↔ (∀ b ∈ s.blocks, b.IsClear) ∧ ∀ u ∈ s.free, AgreeIn own count outer outer' u)
  | .declare name ty init, own, count, _, _, _, _, aligned, lowered, _ => by
    obtain ⟨value, isValue, rfl⟩ := lower_eq_ok lowered
    have here := aligned.cons own count count
    exact resolvesAs_leaf_iff (corresponds_iff_of_initialValue here isValue)
  | .eval e, own, count, _, _, _, _, aligned, lowered, _ => by
    obtain ⟨j, isScript, rfl⟩ := lower_eq_ok lowered
    have built := (e.isBuilt structs).lower isScript
    exact resolvesAs_leaf_iff (corresponds_iff_of_uses (aligned.cons own count count) built rfl)
  | .ret (some e), own, count, _, _, _, _, aligned, lowered, _ => by
    obtain ⟨value, isValue, rfl⟩ := lower_eq_ok lowered
    obtain ⟨j, loweredValue, rfl⟩ := map_eq_ok.mp isValue
    have built := Expr.builtFrom_lowerValue (e.isBuilt structs) loweredValue
    rw [free, Option.toList_some, flatMap_singleton]
    exact resolvesAs_leaf_iff (corresponds_iff_of_uses (aligned.cons own count count) built rfl)
  | .branch condition accept reject, own, count, _, _, _, _, aligned, lowered,
      annotated => by
    obtain ⟨_, isCondition, _, isAccept, _, isReject, rfl⟩ := lower_eq_ok lowered
    obtain ⟨-, acceptAnnotated, rejectAnnotated⟩ := annotated
    have here := aligned.cons own count count
    have inCondition := corresponds_iff_of_uses here ((condition.isBuilt structs).lower isCondition) rfl
    have inAccept := resolvesAs_block_iff named isAccept acceptAnnotated fun distinct =>
      resolvesAs_all_iff named accept [] rfl here isAccept acceptAnnotated distinct
    have inReject := resolvesAs_block_iff named isReject rejectAnnotated fun distinct =>
      resolvesAs_all_iff named reject [] rfl here isReject rejectAnnotated distinct
    rw [positions, Script.Stmt.positions, Script.Stmt.scopes, resolvesAs_cons_iff,
      resolvesAs_append_iff (length_positionsOfAll accept isAccept), inCondition, inAccept,
      inReject]
    simp only [blocks, free, forall_mem_append, AgreeIn]
    tauto
  | .loop init condition step body, own, count, _, _, names, _, aligned, lowered,
      annotated => by
    obtain ⟨_, isInit, _, isCondition, _, isStep, _, isBody, rfl⟩ := lower_eq_ok lowered
    obtain ⟨initAnnotated, conditionAnnotated, stepAnnotated, bodyAnnotated⟩ := annotated
    have here := aligned.cons own count count
    have inside := here.cons (declaredOfOption init) (declaredOfOption init).length
      (declaredOfOption init).length
    have inInit := resolvesAs_option_iff named init (declaredOfOption init) 0 here isInit
      initAnnotated
    have inBody := resolvesAs_block_iff named isBody bodyAnnotated fun distinct =>
      resolvesAs_all_iff named body [] rfl inside isBody bodyAnnotated distinct
    -- The initial statement stands in the header before it has declared something, and the rest
    -- of the loop after that.
    simp only [positions, Script.Stmt.positions, Script.Stmt.scopes, blocks,
      declaredOfOption_lower isInit, length_map, map_append, cons_append]
    refine resolvesAs_enter_iff (append_nil _).symm (areVariables_declaredOfOption init)
      (knows_of_mem_freeOfOption named init initAnnotated) ?_ fun distinct => ?_
    · rw [declares_option_eq] at conditionAnnotated stepAnnotated bodyAnnotated
      exact forall_mem_append.mpr ⟨knows_of_mem_header named conditionAnnotated stepAnnotated,
          knows_of_mem_freeOfAll named body bodyAnnotated⟩
    · rw [resolvesAs_append_iff, resolvesAs_append_nil_iff (length_positionsOfOption init isInit),
        resolvesAs_append_nil_iff, inInit, resolvesAs_exprs_iff inside isCondition,
        resolvesAs_exprs_iff inside isStep, inBody]
      · simp only [forall_mem_append, flatMap_append, AgreeIn]
        tauto
      · simp [length_toList_mapM isCondition]
      · simp only [length_append, length_map, length_toList_mapM isCondition,
          length_toList_mapM isStep]
        rw [length_positionsOfOption init isInit]
  | .block body, own, count, _, _, names, _, aligned, lowered, annotated => by
    obtain ⟨body', isBody, rfl⟩ := lower_eq_ok lowered
    exact resolvesAs_block_iff named isBody annotated fun distinct =>
      resolvesAs_all_iff named body [] rfl (aligned.cons own count count) isBody annotated distinct
  | .ret none, _, _, _, _, _, _, _, lowered, _ | .leave, _, _, _, _, _, _, _, lowered, _
  | .next, _, _, _, _, _, _, _, lowered, _ => by
    cases lowered
    simp [blocks, free, positions, Script.Stmt.positions, Script.Stmt.scopes, resolvesAs_nil]

lemma resolvesAs_option_iff (named : site.symbols.NamesStructs) : (s : Option Stmt) →
    (own : List Symbol) → (count : Nat) →
    ∀ {outer outer'} {names : Names} {t : Option Script.Stmt},
    Aligned outer outer' → lowerOption structs s = .ok t → OptionAnnotated site result names s →
    (ResolvesAs (positionsOfOption outer own count s)
        (Script.Stmt.positionsOfOption outer' (own.map Symbol.spelled) count t)
        (Script.Stmt.scopesOfOption t)
      ↔ (∀ b ∈ blocksOfOption s, b.IsClear)
        ∧ ∀ u ∈ freeOfOption s, AgreeIn own count outer outer' u)
  | none, _, _, _, _, _, _, _, lowered, _ => by
    cases lowered
    simp [blocksOfOption, freeOfOption, positionsOfOption, Script.Stmt.positionsOfOption,
      Script.Stmt.scopesOfOption, resolvesAs_nil]
  | some s, own, count, _, _, _, _, aligned, lowered, annotated => by
    obtain ⟨t, isLowered, rfl⟩ := lowerOption_some_eq_ok lowered
    exact resolvesAs_iff named s own count aligned isLowered annotated

/-- Statements in one scope, of which `pre` is declared before them, resolve if their blocks are
clear and what they leave free agrees. No two names of the scope may be spelled the same. -/
lemma resolvesAs_all_iff (named : site.symbols.NamesStructs) : (ss : List Stmt) →
    (pre : List Symbol) →
    ∀ {outer outer'} {own : List Symbol} {names : Names} {ts : List Script.Stmt},
    own = pre ++ declaredOfAll ss →
    Aligned outer outer' → lowerAll structs ss = .ok ts → AllAnnotated site result names ss →
    (own.map Symbol.spelling).Nodup →
    (ResolvesAs (positionsOfAll outer own pre.length ss)
        (Script.Stmt.positionsOfAll outer' (own.map Symbol.spelled) pre.length ts)
        (Script.Stmt.scopesOfAll ts)
      ↔ (∀ b ∈ blocksOfAll ss, b.IsClear)
        ∧ ∀ u ∈ freeOfAll ss, AgreeIn own pre.length outer outer' u)
  | [], _, _, _, _, _, _, _, _, lowered, _, _ => by
    cases lowered
    simp [blocksOfAll, freeOfAll, positionsOfAll, Script.Stmt.positionsOfAll,
      Script.Stmt.scopesOfAll, resolvesAs_nil]
  | s :: ss, pre, outer, outer', own, names, _, isOwn, aligned, lowered, annotated, distinct => by
    obtain ⟨t, isFirst, ts, isRest, rfl⟩ := lowerAll_cons_eq_ok lowered
    obtain rfl : own = pre ++ s.declared ++ declaredOfAll ss := by simpa [declaredOfAll] using isOwn
    have known := knows_of_mem_freeOfAll named ss annotated.2
    rw [declares_eq] at known
    have first := resolvesAs_iff named s (pre ++ s.declared ++ declaredOfAll ss) pre.length aligned
      isFirst annotated.1
    have rest := resolvesAs_all_iff named ss (pre ++ s.declared) rfl aligned isRest annotated.2
      distinct
    -- What the first statement declares agrees after it, and the others agree after it if before.
    simp only [positionsOfAll, Script.Stmt.positionsOfAll, declared_lower isFirst, length_map,
      Script.Stmt.scopesOfAll, ← length_append]
    rw [resolvesAs_append_iff (length_positions s isFirst), first, rest,
      forall_agreeIn_after_iff (areVariables_declared s) distinct known]
    simp only [blocksOfAll, freeOfAll, forall_mem_append]
    tauto

end

end Resolution

end Stmt

end ShaderAlgebra
