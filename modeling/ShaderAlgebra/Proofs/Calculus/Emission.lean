import ShaderAlgebra.Calculus.Shader
import ShaderAlgebra.Proofs.Calculus.Calls
import ShaderAlgebra.Proofs.Typing.Builtins
import ShaderAlgebra.Proofs.Typing.Declarations

/-!
# Derivative functions and where they go

A derivative function returns the simplified derivative of what its function returns. Of the
derivatives that are missing it depends on the calls of the chain rule alone
(`FunctionDef.outcome_derivativeFunction_congr`), and it calls nothing but these, what the function
calls, types and built-in functions (`FunctionDef.callsOnly_derivativeFunction`).

`InputHandling.arrange` is the list of items of a derived shader, without the loops that place them
one by one: it holds every item that stays, and the derivatives of each function in its place.
-/

namespace ShaderAlgebra

open List Logged

namespace Expr

/-- The tree calls the function. -/
def Calls (e : Expr) (function : String) : Prop :=
  ∃ arguments ty, Within (.call function arguments ty) e

lemma callsOnly_calls (e : Expr) : e.CallsOnly e.Calls := by
  intro s ins
  cases s with
  | call fn args ty => exact ⟨args, ty, ins⟩
  | _ => trivial

lemma CallsOnly.imp {allowed others : String → Prop} {e : Expr} (only : e.CallsOnly allowed)
    (more : ∀ fn, allowed fn → others fn) : e.CallsOnly others := by
  intro s ins
  cases s with
  | call fn args ty => exact more fn (only _ ins)
  | _ => trivial

end Expr

/-- The name of a type or of a built-in function. -/
def IsKnown (function : String) : Prop :=
  (∃ ty, Ty.ofName? function = some ty) ∨ ∃ builtin, Builtin.ofName? function = some builtin

namespace FunctionDef

variable {f h : FunctionDef} {name : String} {catalogue : Catalogue}

/-! ## Derivative functions -/

/-- What it takes for a derivative function to exist, and what it is. -/
lemma derivativeFunction_eq_ok : (f.derivativeFunction name catalogue).outcome = .ok h ↔
      ∃ param tgt e raw, f.parameter? name = some param ∧ param.passing = .input
        ∧ f.result.derivative? param.ty = some tgt ∧ f.expression.outcome = .ok e
        ∧ ((Derivation.mk name param.ty catalogue).derive e).outcome = .ok raw
        ∧ h = ⟨derivativeName name f.name, f.parameters, tgt,
          [.ret (some (spread (Rules.simplify Rule.all raw).result tgt))]⟩ := by
  unfold derivativeFunction differentiate
  cases found : f.parameter? name with
  | none => simp [bind_eq_ok]
  | some param =>
    by_cases read : param.passing = .input
    · cases typed : f.result.derivative? param.ty with
      | none => simp [bind_eq_ok, read, typed]
      | some tgt =>
        simp only [read, typed, ne_eq, not_true_eq_false, if_false, bind_ok,
          outcome_pure, Expr.simplified, Except.ok.injEq, Option.bind_some, Option.getD_some]
        constructor
        · rintro ⟨body, ⟨e, reduced, raw, der, _, rfl, -, -, rfl⟩, rfl⟩
          exact ⟨param, tgt, e, raw, rfl, read, typed, reduced, der, rfl⟩
        · rintro ⟨_, _, e, raw, ⟨⟩, -, same, reduced, der, rfl⟩
          obtain rfl := Option.some.inj (typed.symm.trans same)
          exact ⟨_, ⟨e, reduced, raw, der, _, rfl, (), rfl, rfl⟩, rfl⟩
    · simp [bind_eq_ok, read]

/-- The derivative functions that the chain rule calls in the derivative of the function. -/
def chainCalls (f : FunctionDef) (name : String) (catalogue : Catalogue) : List String :=
  match f.parameter? name, f.expression.outcome with
  | some parameter, .ok e => (Derivation.mk name parameter.ty catalogue).chainCalls e
  | _, _ => []

/-- A derivative function depends on the catalogue through the functions that it knows and the calls
of the chain rule that are missing. -/
lemma outcome_derivativeFunction_congr {oth : Catalogue}
    (known : oth.parameters? = catalogue.parameters?)
    (avail : ∀ called ∈ f.chainCalls name catalogue,
      called ∈ oth.missing ↔ called ∈ catalogue.missing) :
    (f.derivativeFunction name catalogue).outcome = (f.derivativeFunction name oth).outcome := by
  rw [derivativeFunction, derivativeFunction, outcome_bind, outcome_bind]
  refine congrArg (· >>= _) ?_
  unfold differentiate
  cases found : f.parameter? name with
  | none => rfl
  | some param =>
    dsimp only
    split
    · rfl
    · split
      · rfl
      · rw [outcome_bind, outcome_bind]
        cases reduced : f.expression.outcome with
        | error error => rfl
        | ok e =>
          simp only [chainCalls, found, reduced] at avail
          have same := Derivation.derive_congr (d := ⟨name, param.ty, catalogue⟩) known avail
          show (Derivation.derive _ _ >>= _ : Derived Expr).outcome = _
          rw [same]
          rfl

lemma available_of_derivativeFunction
    (der : (f.derivativeFunction name catalogue).outcome = .ok h) :
    ∀ called ∈ f.chainCalls name catalogue, called ∉ catalogue.missing := by
  obtain ⟨param, tgt, e, raw, found, -, -, reduced, onBody, rfl⟩ := derivativeFunction_eq_ok.mp der
  simpa only [chainCalls, found, reduced] using Derivation.available_of_derive onBody

lemma callsOnly_spread {allowed : String → Prop} {e : Expr} (known : Expr.AllowsKnown allowed)
    (only : e.CallsOnly allowed) (tgt : Ty) : (spread e tgt).CallsOnly allowed := by
  unfold spread
  split
  · next filled =>
    obtain ⟨size, kind, rfl⟩ : ∃ size kind, tgt = .vector size kind := by
      cases tgt <;> simp_all [Ty.isVector]
    exact .call (known.type (Expr.ofName?_text_vector size kind)) (by simpa using only)
  · exact only

/-- What a derivative function calls. -/
lemma callsOnly_derivativeFunction (der : (f.derivativeFunction name catalogue).outcome = .ok h) :
    ∃ e body, f.expression.outcome = .ok e ∧ h.body = [.ret (some body)] ∧ body.CallsOnly fun fn =>
        IsKnown fn ∨ e.Calls fn ∨ fn ∈ f.chainCalls name catalogue := by
  obtain ⟨param, tgt, e, raw, found, -, -, reduced, onBody, rfl⟩ := derivativeFunction_eq_ok.mp der
  have known : Expr.AllowsKnown fun fn =>
      IsKnown fn ∨ e.Calls fn ∨ fn ∈ f.chainCalls name catalogue :=
    ⟨fun named => .inl (.inl ⟨_, named⟩), fun bi => .inl (.inr ⟨_, bi.ofName?_name⟩)⟩
  refine ⟨e, _, reduced, rfl, callsOnly_spread known (Rules.callsOnly_simplify _ known _ ?_) _⟩
  refine (Derivation.derive_traces known
    (e.callsOnly_calls.imp fun _ called => .inr (.inl called)) (fun fn mem => ?_) raw onBody).1
  refine .inr (.inr ?_)
  simpa only [chainCalls, found, reduced] using mem

end FunctionDef

/-! ## Attempts -/

/-- The derivative function, if it exists. -/
def Attempt.derivative? (attempt : Attempt) : Option FunctionDef := attempt.outcome.toOption

/-- What is left out, if it does not. -/
def Attempt.skipped? (attempt : Attempt) : Option Skipped :=
  match attempt.outcome with
  | .ok _ => none
  | .error error => some ⟨attempt.function, attempt.parameter, error⟩

namespace Catalogue

variable {ε : Type}

/-- The derivatives of a function, with those that fail. -/
def attemptsOf (catalogue : Catalogue) (f : FunctionDef) : List Attempt :=
  f.parameters.map fun p => ⟨f.name, p.name, (f.derivativeFunction p.name catalogue).outcome⟩

/-- The derivative functions of a function that exist. -/
def derivativesOf (catalogue : Catalogue) (f : FunctionDef) : List FunctionDef :=
  f.parameters.filterMap fun p => (f.derivativeFunction p.name catalogue).outcome.toOption

/-- What is left out of the derivatives of a function. -/
def skippedOf (catalogue : Catalogue) (f : FunctionDef) : List Skipped :=
  (catalogue.attemptsOf f).filterMap (·.skipped?)

lemma mem_derivativesOf {catalogue : Catalogue} {f h : FunctionDef} :
    h ∈ catalogue.derivativesOf f ↔
      ∃ p ∈ f.parameters, (f.derivativeFunction p.name catalogue).outcome = .ok h := by
  simp [derivativesOf, toOption_eq_some]

lemma filterMap_derivative?_attemptsOf (catalogue : Catalogue) (f : FunctionDef) :
    (catalogue.attemptsOf f).filterMap (·.derivative?) = catalogue.derivativesOf f := by
  rw [attemptsOf, filterMap_map]
  rfl

lemma outcome_attempts (f : FunctionDef) (catalogue : Catalogue) (ps : List Parameter) :
    (f.attempts catalogue ps : Logged ε _).outcome
      = .ok (ps.map fun p => ⟨f.name, p.name, (f.derivativeFunction p.name catalogue).outcome⟩) := by
  induction ps with
  | nil => rfl
  | cons p ps ih => simp [FunctionDef.attempts, bind_eq_ok, ih]

lemma outcome_attemptAll (catalogue : Catalogue) (fns : List FunctionDef) :
    (catalogue.attemptAll fns : Logged ε _).outcome = .ok (fns.map catalogue.attemptsOf) := by
  induction fns with
  | nil => rfl
  | cons f fs ih => simp [attemptAll, bind_eq_ok, ih, outcome_attempts, attemptsOf]

end Catalogue

/-! ## Items -/

/-- Whether the item is a struct or a global variable. -/
def Item.isDeclaration : Item → Bool
  | .function _ => false
  | _ => true

lemma Shader.structs_filter_isDeclaration (items : List Item) :
    (Shader.mk (items.filter Item.isDeclaration)).structs = (Shader.mk items).structs := by
  rw [structs, structs, filterMap_filter]
  refine filterMap_congr fun item _ => ?_
  cases item <;> rfl

namespace InputHandling

/-- What an item becomes where it stands. -/
def keep (derivatives : FunctionDef → List FunctionDef) : InputHandling → Item → List Item
  | .omitted, .function f => (derivatives f).map .function
  | .embedded, .function f => .function f :: (derivatives f).map .function
  | _, item => [item]

/-- What a function adds at the end. -/
def postpone (derivatives : FunctionDef → List FunctionDef) :
    InputHandling → FunctionDef → List Item
  | .prepended, f => (derivatives f).map .function
  | _, _ => []

/-- The items of a shader with the derivatives of its functions. -/
def arrange (input : InputHandling) (derivatives : FunctionDef → List FunctionDef)
    (items : List Item) : List Item :=
  items.flatMap (input.keep derivatives)
    ++ (Shader.mk items).functions.flatMap (input.postpone derivatives)

/-- The functions of a shader with their derivatives. -/
def functions (derivatives : FunctionDef → List FunctionDef) :
    InputHandling → List FunctionDef → List FunctionDef
  | .omitted, fs => fs.flatMap derivatives
  | .embedded, fs => fs.flatMap fun f => f :: derivatives f
  | .prepended, fs => fs ++ fs.flatMap derivatives

/-- The functions that stay. -/
def kept : InputHandling → List FunctionDef → List FunctionDef
  | .omitted, _ => []
  | _, fs => fs

lemma functions_perm (input : InputHandling) (derivatives : FunctionDef → List FunctionDef)
    (fs : List FunctionDef) :
    (input.functions derivatives fs).Perm (input.kept fs ++ fs.flatMap derivatives) := by
  cases input with
  | omitted => exact .refl _
  | embedded =>
    have split := map_append_flatMap_perm fs id derivatives
    rw [map_id] at split
    exact split.symm
  | prepended => exact .refl _

section Arrange

variable (input : InputHandling) (derivatives : FunctionDef → List FunctionDef) (items : List Item)

lemma functions_map_function (fs : List FunctionDef) :
    (Shader.mk (fs.map Item.function)).functions = fs := by
  simp [Shader.functions, filterMap_map]

lemma functions_arrange : (Shader.mk (input.arrange derivatives items)).functions
      = input.functions derivatives (Shader.mk items).functions := by
  have none : (Shader.mk []).functions = [] := rfl
  have cons (f : FunctionDef) (items : List Item) :
      (Shader.mk (.function f :: items)).functions = f :: (Shader.mk items).functions := rfl
  have append (items more : List Item) : (Shader.mk (items ++ more)).functions
      = (Shader.mk items).functions ++ (Shader.mk more).functions := filterMap_append
  have last (fs : List FunctionDef) : (Shader.mk (fs.flatMap (input.postpone derivatives))).functions
      = fs.flatMap fun f => (Shader.mk (input.postpone derivatives f)).functions :=
    filterMap_flatMap
  have kept : (Shader.mk (items.flatMap (input.keep derivatives))).functions
      = (Shader.mk items).functions.flatMap fun f =>
        (Shader.mk (input.keep derivatives (.function f))).functions := by
    induction items with
    | nil => rfl
    | cons item items ih =>
      rw [flatMap_cons, append, ih]
      cases item with
      | function f => rfl
      | _ => cases input <;> rfl
  rw [arrange, append, kept, last]
  cases input <;> simp [keep, postpone, functions, functions_map_function, none, cons]

/-- Structs and globals stay as they are, in their order. -/
lemma declarations_arrange : (input.arrange derivatives items).filter Item.isDeclaration
      = items.filter Item.isDeclaration := by
  have noneOf (fs : List FunctionDef) : (fs.map Item.function).filter Item.isDeclaration = [] := by
    simp [Item.isDeclaration]
  have last (fs : List FunctionDef) :
      (fs.flatMap (input.postpone derivatives)).filter Item.isDeclaration = [] := by
    rw [filter_flatMap, flatMap_eq_nil_iff]
    intro f _
    cases input <;> simp [postpone, noneOf]
  rw [arrange, filter_append, last, append_nil]
  induction items with
  | nil => rfl
  | cons item items ih =>
    rw [flatMap_cons, filter_append, ih, ← singleton_append, filter_append]
    cases item <;> cases input <;> simp [keep, Item.isDeclaration]

end Arrange

/-- Every derivative is among the items. -/
lemma mem_arrange (input : InputHandling) {derivatives : FunctionDef → List FunctionDef}
    {items : List Item} {f h : FunctionDef} (mem : f ∈ (Shader.mk items).functions)
    (deriv : h ∈ derivatives f) : .function h ∈ input.arrange derivatives items := by
  refine Shader.mem_functions.mp (functions_arrange input derivatives items ▸ ?_)
  refine (input.functions_perm derivatives _).mem_iff.mpr (mem_append_right _ ?_)
  exact mem_flatMap.mpr ⟨f, mem, deriv⟩

end InputHandling

namespace DerivativeOptions

variable {options : DerivativeOptions}

/-- What becomes of a shader that lacks derivatives: it does without them, or the first of them is
an error. -/
def leaveOut (options : DerivativeOptions) : List Skipped → Except ShaderError Unit
  | [] => .ok ()
  | s :: _ =>
    if options.skipUnsupported then .ok ()
    else .error (.derivative s.function s.parameter s.error)

lemma leaveOut_of_skips (skips : options.skipUnsupported) (skipped : List Skipped) :
    options.leaveOut skipped = .ok () := by
  cases skipped with
  | nil => rfl
  | cons s rest => rw [leaveOut, if_pos skips]

lemma leaveOut_append (fst snd : List Skipped) : options.leaveOut (fst ++ snd)
      = options.leaveOut fst >>= fun _ => options.leaveOut snd := by
  cases fst with
  | nil => rfl
  | cons s fst =>
    cases skips : options.skipUnsupported with
    | true =>
      simp only [leaveOut_of_skips skips]
      rfl
    | false =>
      simp only [cons_append, leaveOut, skips]
      rfl

/-- The derivatives of a function are placed together, unless the first that does not exist stops
it. -/
lemma outcome_placeAttempts (attempts : List Attempt) : (options.placeAttempts attempts).outcome
      = (options.leaveOut (attempts.filterMap (·.skipped?))).map fun _ =>
        let own := (attempts.filterMap (·.derivative?)).map Item.function
        ⟨if options.input = .prepended then [] else own,
          if options.input = .prepended then own else [], attempts.filterMap (·.skipped?)⟩ := by
  induction attempts with
  | nil =>
    rw [placeAttempts]
    simp [leaveOut, Placement.empty, Except.map]
  | cons att rest ih =>
    rw [placeAttempts]
    cases outc : att.outcome with
    | ok deriv =>
      have found : att.derivative? = some deriv := by
        simp [Attempt.derivative?, outc, Except.toOption]
      have kept : att.skipped? = none := by simp [Attempt.skipped?, outc]
      simp only [outcome_bind, ih, outcome_pure, filterMap_cons, found, kept, placeDerivative]
      cases options.leaveOut _ with
      | error _ => rfl
      | ok _ =>
        by_cases last : options.input = .prepended <;> simp only [last, if_true, if_false] <;> rfl
    | error error =>
      have absent : att.derivative? = none := by
        simp [Attempt.derivative?, outc, Except.toOption]
      have left : att.skipped? = some ⟨att.function, att.parameter, error⟩ := by
        simp [Attempt.skipped?, outc]
      cases skips : options.skipUnsupported with
      | false =>
        simp only [filterMap_cons, left, leaveOut, skips]
        rfl
      | true =>
        simp only [if_true, outcome_bind, ih, leaveOut_of_skips skips, filterMap_cons, absent, left]
        by_cases last : options.input = .prepended <;> simp only [last, if_true, if_false] <;> rfl

lemma outcome_place (options : DerivativeOptions) (attempts : FunctionDef → List Attempt)
    (items : List Item) :
    let derivatives (f : FunctionDef) := (attempts f).filterMap (·.derivative?)
    let skipped := (Shader.mk items).functions.flatMap fun f => (attempts f).filterMap (·.skipped?)
    (options.place items ((Shader.mk items).functions.map attempts)).outcome
      = (options.leaveOut skipped).map fun _ =>
        ⟨items.flatMap (options.input.keep derivatives),
          (Shader.mk items).functions.flatMap (options.input.postpone derivatives), skipped⟩ := by
  intro derivatives
  induction items with
  | nil => rfl
  | cons item items ih =>
    cases item with
    | function f =>
      have fns : (Shader.mk (.function f :: items)).functions
        = f :: (Shader.mk items).functions := rfl
      simp only [fns, map_cons, place, headD_cons, tail_cons,
        outcome_bind, outcome_placeAttempts, ih, flatMap_cons, leaveOut_append]
      cases options.leaveOut ((attempts f).filterMap _) with
      | error _ => rfl
      | ok _ =>
        cases options.leaveOut _ with
        | error _ => rfl
        | ok _ =>
          cases options.input <;>
            simp [InputHandling.keep, InputHandling.postpone, derivatives, Except.map] <;> rfl
    | struct _ | global _ =>
      rw [place, outcome_bind]
      · refine (congrArg (· >>= _) ih).trans ?_
        change _ = (options.leaveOut ((Shader.mk items).functions.flatMap _)).map _
        cases options.leaveOut _ with
        | error _ => rfl
        | ok _ => cases options.input <;> rfl
      · simp

end DerivativeOptions

end ShaderAlgebra
