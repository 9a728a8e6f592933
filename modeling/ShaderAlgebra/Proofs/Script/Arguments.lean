import Mathlib.Logic.Relation
import ShaderAlgebra.Proofs.Script.Sharing

/-!
# Arguments that are shared

A shader passes values, and a script passes vectors, matrices, arrays and objects by reference. A
function copies the arguments that it assigns to, but it does not know which of them are storage of
a global variable that is written while it runs. So a call passes by value only if it passes a new
value, or if no function that it can reach writes to the variable (`Shader.PassesByValue`).

What a script passes is new if the argument is a selection of components or a column of a matrix,
and storage of the variable if it is any other part of one. Hence scripts pass by value exactly if
the shader passes no other part of a global variable to a function that may write to it
(`Shader.lower_passes_by_value_iff`), and shaders that do so are accepted
(`Shader.lower_shares_written`).
-/

namespace ShaderAlgebra

variable {function : String} {j : Script.Expr} {p : Position}

/-! ## Parts of variables -/

/-- The variable that a chain of members and elements starts from. -/
def Script.Expr.owner? : Expr → Option String
  | .ident name => some name
  | .member base _ => owner? base
  | .index base _ => owner? base
  | _ => none

lemma Script.Expr.isStorage_of_owner : (j : Expr) → j.owner? ≠ none → j.isStorage
  | .ident _, _ => rfl
  | .member base _, owned | .index base _, owned => isStorage_of_owner base owned
  | .number _, owned | .bool _, owned | .unary _ _, owned | .binary _ _ _, owned
  | .conditional _ _ _, owned | .call _ _, owned | .array _, owned | .object _, owned
  | .assign _ _ _, owned => absurd rfl owned

namespace Expr

/-- The variable that a chain of fields and elements starts from, with its type. -/
def origin? : Expr → Option Symbol
  | .ident name ty => some ⟨name, some ty⟩
  | .field base _ _ => origin? base
  | .index base _ _ => origin? base
  | _ => none

lemma root?_eq : (e : Expr) → e.root? = e.origin?.map Symbol.name
  | .ident .. => rfl
  | .field base _ _ | .index base _ _ => root?_eq base
  | .literal .. | .unary .. | .binary .. | .call .. | .conditional .. | .assign .. => rfl

section Parts

variable {site : Site} {names : Names} {structs : StructTable} {e : Expr} {j : Script.Expr}

section

variable (annotated : e.IsAnnotatedUnder site names)

include annotated

/-- What is new although it denotes storage is a scalar or a vector. -/
lemma ty_of_isFresh (fresh : e.isFresh) :
    (∃ kind, e.ty = .scalar kind) ∨ ∃ size kind, e.ty = .vector size kind := by
  have fits := annotated e .root
  cases e with
  | field base name ty =>
    have typed : fieldType base.ty name = .ok ty := fits
    have isVector : base.ty.isVector := fresh
    rw [fieldType, if_pos isVector] at typed
    obtain ⟨swizzle, -, selected⟩ := bind_eq_ok.mp typed
    obtain ⟨_, kind, -, -, rfl⟩ := Swizzle.resultType_eq_ok.mp selected
    cases Dim.ofCount? swizzle.length with
    | none => exact .inl ⟨kind, rfl⟩
    | some size => exact .inr ⟨size, kind, rfl⟩
  | index base pos ty =>
    have typed : base.ty.element? = some ty := fits.2
    cases isBase : base.ty with
    | matrix cols rows =>
      rw [isBase] at typed
      cases typed
      exact .inr ⟨_, _, rfl⟩
    | _ => simp [isFresh, isBase, Ty.isMatrix] at fresh
  | _ => cases fresh

/-- The script of a new value of a composite type is no storage. -/
lemma isStorage_of_isFresh (composite : e.ty.isComposite) (fresh : e.isFresh)
    (lowered : e.lower structs = .ok j) : j.isStorage = false := by
  have fits := annotated e .root
  cases e with
  | field base name ty =>
    have isVector : base.ty.isVector := fresh
    exact isStorage_field fits composite (.inr fresh) (fun other => by simp [isVector] at other)
      lowered
  | index base pos ty =>
    have isMatrix : base.ty.isMatrix := fresh
    exact isStorage_index fits.2 composite (.inr fresh) (fun other => by simp [isMatrix] at other)
      lowered
  | _ => cases fresh

/-- The script of any other part of a variable that has a composite type is that part of it. -/
lemma owner?_lower (composite : e.ty.isComposite) (isLvalue : e.isLvalue)
    (shared : e.isFresh = false) (lowered : e.lower structs = .ok j) :
    j.owner? = e.root?.map Script.mangle := by
  induction e using Expr.induction generalizing j with
  | node e ih =>
    -- Fields of structs and elements of arrays are parts of something that is not new.
    have ofBase (base : Expr) (mem : base ∈ e.children) (isLvalue : base.isLvalue)
        (composite : base.ty.isComposite) (notVector : base.ty.isVector = false)
        (object : Script.Expr) (loweredBase : base.lower structs = .ok object) :
        object.owner? = base.root?.map Script.mangle := by
      refine ih base mem (annotated.part mem) composite isLvalue ?_ loweredBase
      by_contra fresh
      rcases ty_of_isFresh (annotated.part mem) (by simpa using fresh) with
        ⟨kind, isTy⟩ | ⟨size, kind, isTy⟩
      · simp [isTy, Ty.isComposite] at composite
      · simp [isTy, Ty.isVector] at notVector
    have fits := annotated e .root
    cases e with
    | ident name ty =>
      simp only [lower, bind_eq_ok, pure_eq_ok] at lowered
      obtain ⟨_, -, rfl⟩ := lowered
      rfl
    | field base name ty =>
      have notVector : base.ty.isVector = false := shared
      simp only [lower, bind_eq_ok, notVector, Bool.false_eq_true, if_false, pure_eq_ok] at lowered
      obtain ⟨_, -, object, loweredBase, rfl⟩ := lowered
      simp only [Expr.isLvalue, Bool.and_eq_true] at isLvalue
      exact ofBase base mem_base isLvalue.1
        (Ty.isComposite_of_fieldType notVector fits) notVector object loweredBase
    | index base pos ty =>
      have typed : base.ty.element? = some ty := fits.2
      simp only [lower, bind_eq_ok, shape_eq_ok] at lowered
      obtain ⟨_, -, object, loweredBase, i, -, shape, shaped, rest⟩ := lowered
      cases isBase : base.ty with
      | array element size =>
        rw [isBase] at shaped
        obtain ⟨_, -, rfl⟩ := Option.map_eq_some_iff.mp shaped
        cases rest
        exact ofBase base mem_indexed isLvalue (by rw [isBase]; rfl) (by rw [isBase]; rfl)
          object loweredBase
      | vector =>
        rw [isBase] at typed
        cases typed
        cases composite
      | matrix => simp [isFresh, isBase, Ty.isMatrix] at shared
      | _ =>
        rw [isBase] at typed
        cases typed
    | _ => cases isLvalue

end

end Parts

/-- The script of a call of a declared function passes the scripts of its arguments. -/
lemma lower_callee {structs : StructTable} {e : Expr} (called : e.callee? = some function)
    (lowered : e.lower structs = .ok j) :
    ∃ js, j = .callOf (Script.mangle function) js
      ∧ List.Forall₂ (fun arg j => arg.lower structs = .ok j) e.children js := by
  cases e with
  | call name args ty =>
    simp only [callee?] at called
    split at called
    · cases called
    · next declared =>
      simp only [Bool.or_eq_true, not_or, Option.isSome_iff_ne_none, not_not] at declared
      simp only [lower, declared.1, declared.2, bind_eq_ok] at lowered
      obtain ⟨_, -, rest⟩ := lowered
      have passed (same : name = function)
          (loweredAll : (do return .callOf (Script.mangle name) (← lowerAll structs args))
            = Except.ok j) : ∃ js, j = .callOf (Script.mangle function) js
              ∧ List.Forall₂ (fun arg j => arg.lower structs = .ok j) args js := by
        simp only [bind_eq_ok, pure_eq_ok] at loweredAll
        obtain ⟨js, loweredAll, rfl⟩ := loweredAll
        exact ⟨js, same ▸ rfl, lowerAll_eq_ok.mp loweredAll⟩
      split at called
      · split at called <;> cases called
        next other =>
        simp only [if_neg other] at rest
        exact passed rfl rest
      · cases called
        exact passed rfl (by simpa using rest)
  | _ => cases called

end Expr

/-- What a symbol means is in a scope. -/
lemma Means.has {scopes : List Scope} {u : Symbol} {depth i : Nat}
    (means : Means scopes u (depth, i)) : ∃ scope, scopes[depth]? = some scope ∧ scope.Has i u := by
  generalize isPlace : (depth, i) = place at means
  induction means generalizing depth with
  | here has _ =>
    cases isPlace
    exact ⟨_, rfl, has⟩
  | outward _ _ ih =>
    cases isPlace
    exact ih rfl

/-! ## Writes to global variables -/

/-- The expression is a global variable or a part of one. `g` is the place of the variable among the
symbols of the shader, which are those of the outermost scope. -/
def Position.IsGlobal (p : Position) (e : Expr) (g : Nat) : Prop :=
  ∃ u, e.origin? = some u ∧ Means p.scopes u (p.scopes.length - 1, g)

/-- The expression at the place assigns to the global variable, whole or in part. -/
def Position.AssignsTo (p : Position) (g : Nat) : Prop :=
  ∃ e ∈ p.expr, ∃ op target value ty, Expr.Within (.assign op target value ty) e
    ∧ p.IsGlobal target g

namespace Shader

/-- The expressions of the function of that name, each where it stands. -/
def positionsIn (shader : Shader) (function : String) : List Position :=
  Item.collect (fun count item =>
    match item with
    | .function f => if f.name = function then f.occurrences [⟨shader.symbols, count⟩] else []
    | _ => []) 0 shader.items

/-- One function calls the other. -/
def Calls (shader : Shader) (caller callee : String) : Prop :=
  ∃ p ∈ shader.positionsIn caller, ⟨callee, none⟩ ∈ p.uses

/-- The function, or one that it can reach by calls, assigns to the global variable. -/
def MayWrite (shader : Shader) (function : String) (g : Nat) : Prop :=
  ∃ reached, Relation.ReflTransGen shader.Calls function reached
    ∧ ∃ p ∈ shader.positionsIn reached, p.AssignsTo g

end Shader

/-! ## Passing -/

/-- A call of a declared function at a place is lowered to a call of it that passes the script for
the argument. -/
def Passes (structs : StructTable) (p : Position) (function : String) (argument : Expr)
    (j : Script.Expr) : Prop :=
  ∃ e ∈ p.expr, ∃ call js, Expr.Within call e ∧ call.callee? = some function
    ∧ call.lower structs = .ok (.callOf (Script.mangle function) js)
    ∧ (argument, j) ∈ call.children.zip js

/-- The argument is a global variable, or a part of one, whose values scripts share. -/
structure PassesGlobal (structs : StructTable) (p : Position) (function : String)
    (argument : Expr) (j : Script.Expr) (g : Nat) : Prop where
  passes : Passes structs p function argument j
  isComposite : argument.ty.isComposite = true
  isLvalue : argument.isLvalue = true
  isGlobal : p.IsGlobal argument g

lemma Passes.lower {structs : StructTable} {arg : Expr}
    (passes : Passes structs p function arg j) : arg.lower structs = .ok j := by
  obtain ⟨e, -, call, js, -, called, lowered, isPassed⟩ := passes
  obtain ⟨_, ⟨⟩, passed⟩ := Expr.lower_callee called lowered
  exact (List.forall₂_iff_zip.mp passed).2 isPassed

namespace Shader

/-- Calls of declared functions that can be lowered pass the scripts of all of their arguments. -/
def PassesAll (shader : Shader) : Prop :=
  ∀ p ∈ shader.occurrences, ∀ e ∈ p.expr, ∀ call, Expr.Within call e →
    ∀ function, call.callee? = some function → ∀ k, call.lower shader.structTable = .ok k →
      ∀ argument ∈ call.children, ∃ j, argument.lower shader.structTable = .ok j
        ∧ Passes shader.structTable p function argument j

/-- Of a global variable, or a part of one, the script passes a new value if the argument makes one,
and storage of the variable otherwise. -/
def SharesParts (shader : Shader) : Prop :=
  ∀ p ∈ shader.occurrences, ∀ function argument j g,
    PassesGlobal shader.structTable p function argument j g →
      ∃ u, shader.symbols[g]? = some u
        ∧ if argument.isFresh then j.isStorage = false else j.owner? = some u.spelling

/-- Where the script passes a global variable, or a part of one, it passes a new value, or the
called function and those that it reaches do not write to the variable. -/
def PassesByValue (shader : Shader) : Prop :=
  ∀ p ∈ shader.occurrences, ∀ function argument j g,
    PassesGlobal shader.structTable p function argument j g →
      j.isStorage = false ∨ ¬shader.MayWrite function g

/-- Functions that may write to a global variable are given new values of it only. -/
def GuardsWritten (shader : Shader) : Prop :=
  ∀ p ∈ shader.occurrences, ∀ function argument j g,
    PassesGlobal shader.structTable p function argument j g →
      shader.MayWrite function g → argument.isFresh = true

lemma passesAll (shader : Shader) : shader.PassesAll := by
  intro p mem e stands call inside function called k lowered arg isArgument
  obtain ⟨js, rfl, passed⟩ := Expr.lower_callee called lowered
  obtain ⟨i, inRange, rfl⟩ := List.mem_iff_getElem.mp isArgument
  have inScripts : i < js.length := passed.length_eq ▸ inRange
  have isPassed : (call.children[i], js[i]) ∈ call.children.zip js :=
    List.mem_iff_getElem.mpr ⟨i, by simp [inRange, inScripts], by simp⟩
  exact ⟨js[i], passed.get inRange inScripts, e, stands, call, js, inside, called, lowered,
    isPassed⟩

variable {shader annotated : Shader}

section

variable (accepted : shader.infer.outcome = .ok annotated)

include accepted

/-- An argument of a call in an accepted shader is annotated. -/
lemma exists_isAnnotatedUnder_of_passes (mem : p ∈ annotated.occurrences) {arg : Expr}
    (passes : Passes annotated.structTable p function arg j) :
    ∃ site names, arg.IsAnnotatedUnder site names := by
  obtain ⟨e, stands, call, js, inside, -, -, isPassed⟩ := passes
  obtain ⟨site, _, -, accepts⟩ := accepts_of_mem_occurrences accepted mem
  obtain ⟨names, -, areAnnotated⟩ := accepts.annotated
  have isPart : arg ∈ call.children := (List.of_mem_zip isPassed).1
  exact ⟨site, names, fun s below =>
    areAnnotated e stands s (below.trans ((Expr.Within.part isPart .root).trans inside))⟩

/-- A global variable is a symbol of the shader. -/
lemma symbol_of_isGlobal (mem : p ∈ annotated.occurrences) {e : Expr} {g : Nat}
    (isGlobal : p.IsGlobal e g) : ∃ u, annotated.symbols[g]? = some u ∧ e.origin? = some u := by
  obtain ⟨u, isOrigin, means⟩ := isGlobal
  obtain ⟨_, count, -, accepts⟩ := accepts_of_mem_occurrences accepted mem
  obtain ⟨inner, isScopes⟩ := accepts.inside
  obtain ⟨scope, found, has⟩ := means.has
  obtain rfl : ⟨annotated.symbols, count⟩ = scope := by simpa [← isScopes] using found
  exact ⟨u, has.1, isOrigin⟩

lemma sharesParts : annotated.SharesParts := by
  intro p mem function arg j g passes
  obtain ⟨site, names, isAnnotated⟩ := exists_isAnnotatedUnder_of_passes accepted mem passes.passes
  obtain ⟨u, isSymbol, isOrigin⟩ := symbol_of_isGlobal accepted mem passes.isGlobal
  refine ⟨u, isSymbol, ?_⟩
  split
  · next fresh =>
    exact Expr.isStorage_of_isFresh isAnnotated passes.isComposite fresh passes.passes.lower
  · next shared =>
    rw [Expr.owner?_lower isAnnotated passes.isComposite passes.isLvalue (by simpa using shared)
      passes.passes.lower, Expr.root?_eq, isOrigin]
    rfl

end

/-- The calls of an accepted shader pass the scripts of their arguments. A global variable is passed
as it is, and a part of one too, but for components and columns. So arguments are passed by value
exactly if functions that may write to the variable are given nothing else of it. -/
theorem lower_passes_by_value_iff (accepted : shader.infer.outcome = .ok annotated) :
    annotated.PassesAll ∧ annotated.SharesParts
      ∧ (annotated.PassesByValue ↔ annotated.GuardsWritten) := by
  refine ⟨annotated.passesAll, sharesParts accepted, fun byValue => ?_, fun guards => ?_⟩
  · intro p mem function argument j g passes written
    obtain ⟨u, -, passed⟩ := sharesParts accepted p mem function argument j g passes
    by_contra shared
    rw [if_neg shared] at passed
    have isStorage : j.isStorage = true := j.isStorage_of_owner (by simp [passed])
    rcases byValue p mem function argument j g passes with new | unwritten
    · simp [isStorage] at new
    · exact unwritten written
  · intro p mem function argument j g passes
    obtain ⟨u, -, passed⟩ := sharesParts accepted p mem function argument j g passes
    by_cases written : annotated.MayWrite function g
    · rw [if_pos (guards p mem function argument j g passes written)] at passed
      exact .inl passed
    · exact .inr written

/-- A function that writes to a global vector before it reads its argument, and a call that passes
the given part of the vector to it. -/
def passing (part : Expr → Expr) : Shader :=
  let g := Expr.ident "g" (.vec .three)
  let p := Expr.ident "p" (.vec .three)
  ⟨[.global ⟨"g", .vec .three, none, none⟩,
    .function
      { name := "h"
        parameters := [⟨"p", .vec .three, .input⟩]
        result := .float
        body :=
          [.eval (.assign none (.field g "x" .float) (.field p "y" .float) .float),
            .ret (some (.field p "x" .float))] },
    .function
      { name := "f"
        parameters := []
        result := .float
        body := [.ret (some (.call "h" [part g] .float))] }]⟩

/-- The function is given the components of the vector. -/
def guarded : Shader := passing fun g => .field g "zyx" (.vec .three)

/-- `guarded` passes all its arguments by value. -/
theorem lower_passes_by_value_guarded :
    guarded.infer.outcome = .ok guarded ∧ (∃ script, guarded.lower.outcome = .ok script)
      ∧ guarded.PassesAll ∧ guarded.SharesParts ∧ guarded.PassesByValue := by
  have accepted : guarded.infer.outcome = .ok guarded := rfl
  have fresh : ∀ p ∈ guarded.occurrences, ∀ e ∈ p.expr.toList, ∀ call ∈ e.nodes,
      ∀ argument ∈ call.children, call.callee? = none ∨ argument.isFresh = true := by decide
  have guards : guarded.GuardsWritten := by
    intro p mem function argument j g passes written
    obtain ⟨e, stands, call, js, inside, called, -, isPassed⟩ := passes.passes
    refine (fresh p mem e (Option.mem_toList.mpr stands) call (Expr.mem_nodes.mpr inside) argument
      (List.of_mem_zip isPassed).1).resolve_left ?_
    simp [called]
  obtain ⟨passesAll, shares, byValue⟩ := lower_passes_by_value_iff accepted
  exact ⟨accepted, ⟨_, rfl⟩, passesAll, shares, byValue.mpr guards⟩

/-- The function is given the vector itself. -/
def aliased : Shader := passing id

/-- The script of an accepted shader shares a global variable with a function that writes to it. -/
theorem lower_shares_written :
    aliased.infer.outcome = .ok aliased ∧ (∃ script, aliased.lower.outcome = .ok script)
      ∧ ¬ aliased.PassesByValue := by
  refine ⟨rfl, ⟨_, rfl⟩, fun byValue => ?_⟩
  let g : Symbol := ⟨"g", some (.vec .three)⟩
  have others : ∀ s ∈ aliased.symbols.tail, s.isAlike g = false := by decide
  have means (own : Scope) (absent : ∀ s ∈ own.symbols, s.isAlike g = false) (count : Nat)
      (declared : 0 < count) : Means [own, ⟨aliased.symbols, count⟩] g (1, 0) := by
    refine .outward (fun k s has => absent s (List.mem_of_getElem? has.1))
      (.here ⟨rfl, .inr declared⟩ fun k s after has => ?_)
    obtain ⟨k, rfl⟩ : ∃ k', k = k' + 1 := ⟨k - 1, by omega⟩
    exact others s (List.mem_of_getElem? has.1)
  -- The last expression of the shader is the call.
  let p : Position :=
    ⟨[⟨[], 0⟩, ⟨aliased.symbols, 2⟩], some (.call "h" [.ident "g" (.vec .three)] .float)⟩
  have passes : PassesGlobal aliased.structTable p "h" (.ident "g" (.vec .three)) (.ident "g") 0 :=
    { passes := ⟨_, rfl, _, [.ident "g"], .root, rfl, rfl, List.mem_cons_self⟩
      isComposite := rfl
      isLvalue := rfl
      isGlobal := ⟨g, rfl, means ⟨[], 0⟩ (by simp) 2 (by decide)⟩ }
  have mem : p ∈ aliased.occurrences := List.mem_of_getLast? rfl
  rcases byValue p mem "h" _ _ 0 passes with new | unwritten
  · cases new
  · refine unwritten ⟨"h", .refl, _, List.mem_cons_self, _, rfl, none, _, _, _, .root, g, rfl, ?_⟩
    exact means ⟨[⟨"p", some (.vec .three)⟩], 1⟩ (by decide) 1 (by decide)

end Shader

end ShaderAlgebra
