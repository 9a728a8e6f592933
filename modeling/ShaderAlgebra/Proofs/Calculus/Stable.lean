import Mathlib.Data.Finset.Card
import Mathlib.Order.Bounds.Basic
import ShaderAlgebra.Proofs.Calculus.Emission

/-!
# The derivatives that a shader keeps

Derivatives are taken in rounds, and each round does without those that failed in the rounds before
it. `Catalogue.Settles` is that loop with no bound on the number of rounds. It ends for all
functions, because a round that changes anything takes the name of a derivative away, and the number
of rounds that the shader is given is enough to see the end (`Catalogue.exists_settles`).

What is left at the end supports itself: no derivative calls one that is left out. If no two
derivatives have the same name it is the most that does, since a round takes away nothing that a
self-sufficient set holds (`Catalogue.round_keeps`).
-/

namespace ShaderAlgebra

open List

/-- A function and the parameter that it is differentiated by. -/
structure Variation where
  function : FunctionDef
  parameter : Parameter

variable {functions : List FunctionDef} {v : Variation} {shader : Shader}

namespace Variation

variable {catalogue : Catalogue}

/-- The names of the function and the parameter. -/
def pair (v : Variation) : String × String := (v.function.name, v.parameter.name)

/-- The name of the derivative. -/
def name (v : Variation) : String := derivativeName v.parameter.name v.function.name

def outcome (v : Variation) (catalogue : Catalogue) : Except DiffError FunctionDef :=
  (v.function.derivativeFunction v.parameter.name catalogue).outcome

/-- Whether the derivative exists. -/
def derives (v : Variation) (catalogue : Catalogue) : Bool := (v.outcome catalogue).isOk

def chainCalls (v : Variation) (catalogue : Catalogue) : List String :=
  v.function.chainCalls v.parameter.name catalogue

/-- The derivatives of the functions, by every parameter of each. -/
def all (functions : List FunctionDef) : List Variation :=
  functions.flatMap fun f => f.parameters.map fun p => ⟨f, p⟩

lemma derives_iff : v.derives catalogue ↔ ∃ h, v.outcome catalogue = .ok h := by
  unfold derives
  cases v.outcome catalogue <;> simp [Except.isOk, Except.toBool]

lemma mem_all :
    v ∈ all functions ↔ v.function ∈ functions ∧ v.parameter ∈ v.function.parameters := by
  simp only [all, mem_flatMap, mem_map]
  constructor
  · rintro ⟨f, memFn, p, memP, rfl⟩
    exact ⟨memFn, memP⟩
  · rintro ⟨memFn, memP⟩
    exact ⟨_, memFn, _, memP, rfl⟩

lemma length_all (functions : List FunctionDef) :
    (all functions).length = Shader.derivativeCount functions := by
  rw [all, length_flatMap, Shader.derivativeCount, ← sum_eq_foldl]
  simp

end Variation

namespace Catalogue

variable {functions : List FunctionDef} {catalogue final : Catalogue} {name : String}

/-! ## Rounds -/

/-- Every derivative that the chain rule may call exists. -/
def IsStable (functions : List FunctionDef) (catalogue : Catalogue) : Prop :=
  ∀ v ∈ Variation.all functions, v.name ∉ catalogue.missing → v.derives catalogue = true

/-- The catalogue after a round: without the derivatives that failed in it. -/
def round (functions : List FunctionDef) (catalogue : Catalogue) : Catalogue :=
  catalogue.withoutFailures
    ((functions.map catalogue.attemptsOf).flatten.filter (Attempt.isNewFailure catalogue))

/-- Round after round until the catalogue is stable. -/
inductive Settles (functions : List FunctionDef) : Catalogue → Catalogue → Prop
  | stable {catalogue : Catalogue} (isStable : IsStable functions catalogue) :
    Settles functions catalogue catalogue
  | round {catalogue final : Catalogue} (unstable : ¬IsStable functions catalogue)
    (rest : Settles functions (catalogue.round functions) final) :
    Settles functions catalogue final

lemma mem_attempts {att : Attempt} : att ∈ (functions.map catalogue.attemptsOf).flatten ↔
      ∃ v ∈ Variation.all functions, att = ⟨v.pair.1, v.pair.2, v.outcome catalogue⟩ := by
  simp only [mem_flatten, mem_map, attemptsOf]
  constructor
  · rintro ⟨_, ⟨f, memFn, rfl⟩, mem⟩
    obtain ⟨p, memP, rfl⟩ := mem_map.mp mem
    exact ⟨⟨f, p⟩, Variation.mem_all.mpr ⟨memFn, memP⟩, rfl⟩
  · rintro ⟨v, mem, rfl⟩
    obtain ⟨memFn, memP⟩ := Variation.mem_all.mp mem
    exact ⟨_, ⟨v.function, memFn, rfl⟩, mem_map.mpr ⟨v.parameter, memP, rfl⟩⟩

/-- The failures of a round are the derivatives that do not exist and may be called. -/
lemma mem_failures {att : Attempt} :
    att ∈ (functions.map catalogue.attemptsOf).flatten.filter (Attempt.isNewFailure catalogue) ↔
      ∃ v ∈ Variation.all functions, v.derives catalogue = false ∧ v.name ∉ catalogue.missing
        ∧ att = ⟨v.pair.1, v.pair.2, v.outcome catalogue⟩ := by
  have failed (v : Variation) :
      Attempt.isNewFailure catalogue ⟨v.pair.1, v.pair.2, v.outcome catalogue⟩ ↔
        v.derives catalogue = false ∧ v.name ∉ catalogue.missing := by
    unfold Attempt.isNewFailure Attempt.hasFailed Variation.derives
    cases v.outcome catalogue <;>
      simp [Catalogue.hasDerivative, Variation.name, Variation.pair, Except.isOk, Except.toBool]
  rw [mem_filter, mem_attempts]
  constructor
  · rintro ⟨⟨v, mem, rfl⟩, isNew⟩
    obtain ⟨fails, clb⟩ := (failed v).mp isNew
    exact ⟨v, mem, fails, clb, rfl⟩
  · rintro ⟨v, mem, fails, clb, rfl⟩
    exact ⟨⟨v, mem, rfl⟩, (failed v).mpr ⟨fails, clb⟩⟩

/-- A catalogue is stable exactly if a round has no failures. -/
lemma isStable_iff : IsStable functions catalogue ↔
      (functions.map catalogue.attemptsOf).flatten.filter (Attempt.isNewFailure catalogue) = [] := by
  rw [eq_nil_iff_forall_not_mem]
  constructor
  · intro stable att mem
    obtain ⟨v, ins, fails, clb, -⟩ := mem_failures.mp mem
    cases fails.symm.trans (stable v ins clb)
  · intro none v mem clb
    cases fails : v.derives catalogue with
    | true => rfl
    | false => exact absurd (mem_failures.mpr ⟨v, mem, fails, clb, rfl⟩) (none _)

lemma withoutFailures_functions (catalogue : Catalogue) (failures : List Attempt) :
    (catalogue.withoutFailures failures).functions = catalogue.functions := by
  induction failures generalizing catalogue with
  | nil => rfl
  | cons att rest ih =>
    refine (ih _).trans ?_
    show (catalogue.withoutDerivative att.function att.parameter).functions = _
    unfold withoutDerivative
    split <;> rfl

lemma mem_missing_withoutFailures {failures : List Attempt} :
    name ∈ (catalogue.withoutFailures failures).missing ↔ name ∈ catalogue.missing
        ∨ ∃ att ∈ failures, derivativeName att.parameter att.function = name := by
  induction failures generalizing catalogue with
  | nil => simp [withoutFailures]
  | cons att rest ih =>
    have fst : name ∈ (catalogue.withoutDerivative att.function att.parameter).missing ↔
        name ∈ catalogue.missing ∨ derivativeName att.parameter att.function = name := by
      unfold withoutDerivative
      split
      · simp [or_comm, eq_comm]
      · next known =>
        have present : derivativeName att.parameter att.function ∈ catalogue.missing := by
          simpa [hasDerivative] using known
        constructor
        · exact .inl
        · rintro (mem | rfl)
          · exact mem
          · exact present
    rw [withoutFailures, foldl_cons]
    refine ih.trans ?_
    rw [fst, exists_mem_cons_iff, or_assoc]

/-- A round takes the names of the derivatives away that do not exist. -/
lemma mem_missing_round : name ∈ (catalogue.round functions).missing ↔ name ∈ catalogue.missing
        ∨ ∃ v ∈ Variation.all functions, v.derives catalogue = false ∧ v.name = name := by
  rw [round, mem_missing_withoutFailures]
  constructor
  · rintro (mem | ⟨_, mem, rfl⟩)
    · exact .inl mem
    · obtain ⟨v, ins, fails, -, rfl⟩ := mem_failures.mp mem
      exact .inr ⟨v, ins, fails, rfl⟩
  · rintro (mem | ⟨v, mem, fails, rfl⟩)
    · exact .inl mem
    · by_cases missing : v.name ∈ catalogue.missing
      · exact .inl missing
      · exact .inr ⟨_, mem_failures.mpr ⟨v, mem, fails, missing, rfl⟩, rfl⟩

lemma round_functions : (catalogue.round functions).functions = catalogue.functions :=
  withoutFailures_functions _ _

/-! ## The end of the rounds -/

/-- The names of derivatives that the chain rule may still call. -/
def callable (functions : List FunctionDef) (catalogue : Catalogue) : Finset String :=
  ((Variation.all functions).map Variation.name).toFinset \ catalogue.missing.toFinset

lemma mem_callable : name ∈ catalogue.callable functions ↔
      (∃ v ∈ Variation.all functions, v.name = name) ∧ name ∉ catalogue.missing := by
  simp [callable]

/-- A round that does not find the catalogue stable takes a name away. -/
lemma callable_round_ssubset (unstable : ¬IsStable functions catalogue) :
    (catalogue.round functions).callable functions ⊂ catalogue.callable functions := by
  obtain ⟨v, mem, clb, fails⟩ : ∃ v ∈ Variation.all functions, v.name ∉ catalogue.missing
      ∧ v.derives catalogue = false := by
    simpa [IsStable] using unstable
  refine (Finset.ssubset_iff_of_subset ?_).mpr ⟨v.name, mem_callable.mpr ⟨⟨v, mem, rfl⟩, clb⟩, ?_⟩
  · intro name ins
    obtain ⟨named, kept⟩ := mem_callable.mp ins
    exact mem_callable.mpr ⟨named, fun missing => kept (mem_missing_round.mpr (.inl missing))⟩
  · intro ins
    exact (mem_callable.mp ins).2 (mem_missing_round.mpr (.inr ⟨v, mem, fails, rfl⟩))

/-- As many rounds as there are names left are enough for the loop to end. -/
lemma exists_settles {ε : Type} (rounds : Nat)
    (enough : (catalogue.callable functions).card ≤ rounds) :
    ∃ final, Settles functions catalogue final
      ∧ (stableAttempts functions rounds catalogue : Logged ε _).outcome
        = .ok (functions.map final.attemptsOf) := by
  induction rounds generalizing catalogue with
  | zero =>
    have none : catalogue.callable functions = ∅ := Finset.card_eq_zero.mp (Nat.le_zero.mp enough)
    refine ⟨catalogue, .stable fun v mem clb => ?_, outcome_attemptAll _ _⟩
    have ins := mem_callable.mpr ⟨⟨v, mem, rfl⟩, clb⟩
    rw [none] at ins
    cases ins
  | succ rounds ih =>
    rw [stableAttempts, Logged.outcome_bind, outcome_attemptAll]
    by_cases stable : IsStable functions catalogue
    · refine ⟨catalogue, .stable stable, ?_⟩
      show (if _ then _ else _ : Logged ε _).outcome = _
      rw [isStable_iff.mp stable]
      rfl
    · have fewer := Finset.card_lt_card (callable_round_ssubset stable)
      have enough : ((catalogue.round functions).callable functions).card ≤ rounds := by omega
      obtain ⟨final, settles, attempts⟩ := ih enough
      refine ⟨final, .round stable settles, ?_⟩
      show (if _ then _ else _ : Logged ε _).outcome = _
      rw [if_neg]
      · exact attempts
      · rw [List.isEmpty_iff]
        exact fun none => stable (isStable_iff.mpr none)

namespace Settles

section

variable (settles : Settles functions catalogue final)

include settles

/-- What a round keeps holds at the end. -/
lemma keeps {P : Catalogue → Prop} (step : ∀ catalogue, P catalogue → P (catalogue.round functions))
    (start : P catalogue) : P final := by
  induction settles with
  | stable => exact start
  | round _ _ ih => exact ih (step _ start)

lemma isStable : IsStable functions final := by
  induction settles with
  | stable stable => exact stable
  | round _ _ ih => exact ih

lemma functions_eq : final.functions = catalogue.functions :=
  settles.keeps (P := fun known => known.functions = catalogue.functions)
    (fun _ same => round_functions.trans same) rfl

end

end Settles

/-! ## Names that the chain rule calls -/

/-- A function that the catalogue of a shader knows is a function of the shader, and one that the
chain rule applies to. -/
lemma parameters?_ofShader {fn : String} {ps : List String}
    (known : (ofShader shader).parameters? fn = some ps) :
    ∃ f ∈ shader.functions, f.isChainable ∧ f.name = fn ∧ f.parameters.map (·.name) = ps := by
  have all (functions : List FunctionDef) (catalogue : Catalogue)
      (known : (catalogue.registerAll functions).parameters? fn = some ps) :
      catalogue.parameters? fn = some ps ∨ ∃ f ∈ functions, f.isChainable ∧ f.name = fn
          ∧ f.parameters.map (·.name) = ps := by
    induction functions generalizing catalogue with
    | nil => exact .inl known
    | cons f rest ih =>
      rcases ih (catalogue.register f) known with known | ⟨g, mem, found⟩
      · unfold register at known
        split at known
        · next chain =>
          rw [parameters?, Bindings.get?_set] at known
          split at known
          · next same =>
            exact .inr ⟨f, mem_cons_self, chain, same.symm, Option.some.inj known⟩
          · exact .inl known
        · exact .inl known
      · exact .inr ⟨g, mem_cons_of_mem _ mem, found⟩
  rcases all shader.functions empty known with known | found
  · cases known
  · exact found

lemma ofShader_missing (shader : Shader) : (ofShader shader).missing = [] := by
  have all (functions : List FunctionDef) (catalogue : Catalogue) :
      (catalogue.registerAll functions).missing = catalogue.missing := by
    induction functions generalizing catalogue with
    | nil => rfl
    | cons f rest ih =>
      refine (ih (catalogue.register f)).trans ?_
      unfold register
      split <;> rfl
  exact all shader.functions empty

/-- The chain rule calls derivatives of the shader only. -/
lemma exists_of_mem_chainCalls {called : String}
    (same : catalogue.functions = (ofShader shader).functions)
    (mem : called ∈ v.chainCalls catalogue) :
    ∃ w ∈ Variation.all shader.functions, w.name = called := by
  unfold Variation.chainCalls FunctionDef.chainCalls at mem
  split at mem
  · obtain ⟨fn, ps, param, known, ins, rfl⟩ :=
      Derivation.registered_of_mem_chainCalls mem
    have known : (ofShader shader).parameters? fn = some ps := by
      rw [← known, parameters?, parameters?, same]
    obtain ⟨f, memFn, -, rfl, rfl⟩ := parameters?_ofShader known
    obtain ⟨p, memP, rfl⟩ := mem_map.mp ins
    exact ⟨⟨f, p⟩, Variation.mem_all.mpr ⟨memFn, memP⟩, rfl⟩
  · cases mem

end Catalogue

namespace Variation

lemma available_of_derives {catalogue : Catalogue} (der : v.derives catalogue) :
    ∀ called ∈ v.chainCalls catalogue, called ∉ catalogue.missing := by
  obtain ⟨h, der⟩ := derives_iff.mp der
  exact FunctionDef.available_of_derivativeFunction der

/-- A derivative that exists exists wherever no more of what it calls is missing. -/
lemma derives_of_available {fst snd : Catalogue} (same : fst.functions = snd.functions)
    (der : v.derives fst)
    (avail : ∀ called ∈ v.chainCalls fst, called ∉ fst.missing → called ∉ snd.missing) :
    v.derives snd := by
  obtain ⟨h, outc⟩ := derives_iff.mp der
  have known : snd.parameters? = fst.parameters? := by
    funext function
    rw [Catalogue.parameters?, Catalogue.parameters?, same]
  refine derives_iff.mpr ⟨h, outc ▸ (FunctionDef.outcome_derivativeFunction_congr known ?_).symm⟩
  intro called calls
  have clb := available_of_derives der called calls
  simp [clb, avail called calls clb]

end Variation

/-! ## Sets of derivatives that support themselves -/

namespace Catalogue

variable {shader : Shader} {kept : Finset (String × String)} {catalogue final : Catalogue}

/-- The catalogue in which exactly the derivatives of a set exist. -/
def offering (functions : List FunctionDef) (kept : Finset (String × String))
    (catalogue : Catalogue) : Catalogue :=
  { catalogue with
    missing := ((Variation.all functions).filter fun v => v.pair ∉ kept).map Variation.name }

/-- Every derivative of the set exists if exactly those of the set may be called. -/
structure SelfSufficient (shader : Shader) (kept : Finset (String × String)) : Prop where
  subset : ∀ pair ∈ kept, ∃ v ∈ Variation.all shader.functions, v.pair = pair
  derives : ∀ v ∈ Variation.all shader.functions, v.pair ∈ kept →
    v.derives ((ofShader shader).offering shader.functions kept) = true

/-- The derivatives that exist. -/
def existing (functions : List FunctionDef) (catalogue : Catalogue) : Finset (String × String) :=
  (((Variation.all functions).filter fun v => v.derives catalogue).map Variation.pair).toFinset

lemma mem_existing {pair : String × String} : pair ∈ catalogue.existing functions ↔
      ∃ v ∈ Variation.all functions, v.derives catalogue ∧ v.pair = pair := by
  simp [existing, and_assoc]

/-- A name is missing in the catalogue that offers a set exactly if a derivative of that name is
not in the set. -/
lemma mem_missing_offering {name : String} : name ∈ (catalogue.offering functions kept).missing ↔
      ∃ v ∈ Variation.all functions, v.pair ∉ kept ∧ v.name = name := by
  simp [offering, and_assoc]

/-- The derivatives of a self-sufficient set exist where all of them may be called. -/
lemma SelfSufficient.derives_of_callable (suff : SelfSufficient shader kept)
    (same : catalogue.functions = (ofShader shader).functions)
    (clb : ∀ v ∈ Variation.all shader.functions, v.pair ∈ kept → v.name ∉ catalogue.missing)
    (mem : v ∈ Variation.all shader.functions) (ins : v.pair ∈ kept) : v.derives catalogue := by
  have der := suff.derives v mem ins
  refine Variation.derives_of_available (by exact same.symm) der ?_
  intro called calls offered
  obtain ⟨w, memC, rfl⟩ := exists_of_mem_chainCalls (by rfl) calls
  refine clb w memC ?_
  by_contra outside
  exact offered (mem_missing_offering.mpr ⟨w, memC, outside, rfl⟩)

/-- A round takes away nothing that a self-sufficient set holds. -/
lemma round_keeps (nodup : ((Variation.all shader.functions).map Variation.name).Nodup)
    (suff : SelfSufficient shader kept)
    (same : catalogue.functions = (ofShader shader).functions)
    (clb : ∀ v ∈ Variation.all shader.functions, v.pair ∈ kept → v.name ∉ catalogue.missing) :
    ∀ v ∈ Variation.all shader.functions, v.pair ∈ kept →
      v.name ∉ (catalogue.round shader.functions).missing := by
  intro v mem ins missing
  rcases mem_missing_round.mp missing with missing | ⟨w, memOther, fails, sameName⟩
  · exact clb v mem ins missing
  · obtain rfl := inj_on_of_nodup_map nodup memOther mem sameName
    cases fails.symm.trans (suff.derives_of_callable same clb mem ins)

namespace Settles

section

variable (settles : Settles shader.functions (ofShader shader) final)
  (nodup : ((Variation.all shader.functions).map Variation.name).Nodup)

include settles nodup

/-- What exists at the end supports itself. -/
lemma selfSufficient : SelfSufficient shader (final.existing shader.functions) := by
  refine ⟨fun pair mem => ?_, fun v mem ins => ?_⟩
  · obtain ⟨v, ins, -, paired⟩ := mem_existing.mp mem
    exact ⟨v, ins, paired⟩
  · obtain ⟨w, memOther, der, samePair⟩ := mem_existing.mp ins
    have sameName : w.name = v.name := by
      simp only [Variation.pair, Prod.mk.injEq] at samePair
      rw [Variation.name, Variation.name, samePair.1, samePair.2]
    obtain rfl := inj_on_of_nodup_map nodup memOther mem sameName
    refine Variation.derives_of_available settles.functions_eq der ?_
    intro called calls clb missing
    -- A call that is not missing at the end exists there, so the set holds it.
    obtain ⟨u, memMissing, outside, rfl⟩ := mem_missing_offering.mp missing
    exact outside (mem_existing.mpr ⟨u, memMissing, settles.isStable u memMissing clb, rfl⟩)

/-- At the end of the rounds the derivatives that exist are the most that support themselves. -/
lemma isGreatest :
    IsGreatest { kept | SelfSufficient shader kept } (final.existing shader.functions) := by
  refine ⟨settles.selfSufficient nodup, fun kept suff pair ins => ?_⟩
  obtain ⟨same, clb⟩ := settles.keeps
    (P := fun catalogue => catalogue.functions = (ofShader shader).functions
      ∧ ∀ v ∈ Variation.all shader.functions, v.pair ∈ kept → v.name ∉ catalogue.missing)
    (fun catalogue ⟨same, clb⟩ =>
      ⟨round_functions.trans same, round_keeps nodup suff same clb⟩)
    ⟨rfl, by simp [ofShader_missing]⟩
  obtain ⟨v, mem, rfl⟩ := suff.subset pair ins
  exact mem_existing.mpr ⟨v, mem, suff.derives_of_callable same clb mem ins, rfl⟩

end

end Settles

end Catalogue

/-! ## Derived shaders -/

namespace Shader

variable {shader : Shader} {options : DerivativeOptions} {r : DerivedShader}

/-- The rounds that a shader is given are enough. -/
lemma exists_settles {ε : Type} (shader : Shader) :
    ∃ final, Catalogue.Settles shader.functions (.ofShader shader) final
      ∧ (Catalogue.stableAttempts shader.functions (derivativeCount shader.functions)
          (.ofShader shader) : Logged ε _).outcome
        = .ok (shader.functions.map final.attemptsOf) := by
  refine Catalogue.exists_settles _ ?_
  calc ((Catalogue.ofShader shader).callable shader.functions).card
    _ ≤ ((Variation.all shader.functions).map Variation.name).toFinset.card :=
      Finset.card_le_card Finset.sdiff_subset
    _ ≤ ((Variation.all shader.functions).map Variation.name).length := toFinset_card_le _
    _ = derivativeCount shader.functions := by rw [length_map, Variation.length_all]

/-- What comes of an accepted shader: its items and the derivatives that exist at the end of the
rounds, with the others left out if the options allow it. -/
lemma outcome_differentiate {ann : Shader} (inf : shader.infer.outcome = .ok ann) :
    ∃ final, Catalogue.Settles ann.functions (.ofShader ann) final ∧ ∀ options : DerivativeOptions,
        let skipped := ann.functions.flatMap final.skippedOf
        (shader.differentiate options).outcome = (options.leaveOut skipped).map fun _ =>
            ⟨⟨options.input.arrange final.derivativesOf ann.items⟩, skipped⟩ := by
  obtain ⟨final, settles, settled⟩ := ann.exists_settles (ε := ShaderError)
  refine ⟨final, settles, fun options => ?_⟩
  have placed := options.outcome_place final.attemptsOf ann.items
  simp only [Catalogue.filterMap_derivative?_attemptsOf] at placed
  change _ = (options.leaveOut (ann.functions.flatMap final.skippedOf)).map _ at placed
  rw [differentiate, Logged.outcome_bind, Logged.outcome_mapError, inf]
  refine (Logged.outcome_bind _ _).trans ((congrArg (· >>= _) settled).trans ?_)
  refine (Logged.outcome_bind _ _).trans ((congrArg (· >>= _) placed).trans ?_)
  cases options.leaveOut _ <;> rfl

lemma infer_of_differentiate (der : (shader.differentiate options).outcome = .ok r) :
    ∃ ann, shader.infer.outcome = .ok ann := by
  simp only [differentiate, Logged.bind_ok, Logged.outcome_mapError, mapError_eq_ok] at der
  obtain ⟨ann, inf, -⟩ := der
  exact ⟨ann, inf⟩

/-- A derived shader holds the items and the derivatives that exist at the end of the rounds, and
lists the others as left out. -/
lemma differentiate_eq_ok (der : (shader.differentiate options).outcome = .ok r) :
    ∃ ann final, shader.infer.outcome = .ok ann
      ∧ Catalogue.Settles ann.functions (.ofShader ann) final
      ∧ r.shader.items = options.input.arrange final.derivativesOf ann.items
      ∧ r.skipped = ann.functions.flatMap final.skippedOf := by
  obtain ⟨ann, inf⟩ := infer_of_differentiate der
  obtain ⟨final, settles, outc⟩ := outcome_differentiate inf
  obtain ⟨-, -, rfl⟩ := map_eq_ok.mp ((outc options).symm.trans der)
  exact ⟨ann, final, inf, settles, rfl, rfl⟩

end Shader

namespace Variation

variable {v : Variation} {final : Catalogue} {functions : List FunctionDef}

/-- What is left out are the derivatives that do not exist. -/
lemma mem_skipped {s : Skipped} : s ∈ functions.flatMap final.skippedOf ↔
      ∃ v ∈ all functions, ∃ error, v.outcome final = .error error
        ∧ s = ⟨v.function.name, v.parameter.name, error⟩ := by
  simp only [mem_flatMap, Catalogue.skippedOf, Catalogue.attemptsOf, mem_filterMap, mem_map]
  constructor
  · rintro ⟨f, memFn, _, ⟨p, memP, rfl⟩, found⟩
    refine ⟨⟨f, p⟩, mem_all.mpr ⟨memFn, memP⟩, ?_⟩
    unfold Attempt.skipped? at found
    split at found <;> cases found
    next error failed => exact ⟨error, failed, rfl⟩
  · rintro ⟨v, mem, error, failed, rfl⟩
    obtain ⟨memFn, memP⟩ := mem_all.mp mem
    refine ⟨_, memFn, _, ⟨_, memP, rfl⟩, ?_⟩
    unfold outcome at failed
    simp only [Attempt.skipped?, failed]

/-- At the end of the rounds, what the chain rule calls in a derivative exists, and no derivative
of that name does not. -/
lemma chainCalls_exist (settles : Catalogue.Settles shader.functions (.ofShader shader) final)
    (der : v.derives final) {called : String} (calls : called ∈ v.chainCalls final) :
    (∃ w ∈ all shader.functions, w.derives final ∧ w.name = called)
      ∧ ∀ w ∈ all shader.functions, w.derives final = false → w.name ≠ called := by
  have clb := available_of_derives der called calls
  refine ⟨?_, fun w mem fails same => ?_⟩
  · obtain ⟨w, mem, rfl⟩ := Catalogue.exists_of_mem_chainCalls settles.functions_eq calls
    exact ⟨w, mem, settles.isStable w mem clb, rfl⟩
  · subst same
    cases fails.symm.trans (settles.isStable w mem clb)

lemma name_of_outcome {h : FunctionDef} (der : v.outcome final = .ok h) : h.name = v.name := by
  obtain ⟨_, _, _, _, -, -, -, -, -, rfl⟩ := FunctionDef.derivativeFunction_eq_ok.mp der
  rfl

end Variation

namespace Shader

/-- The loop over the derivatives of a shader ends. In the derived shader, a derivative function
calls what its function calls and, by the chain rule, other derivative functions of the shader: none
of these was left out. If no two derivatives have the same name, those that the shader holds are the
most of which each exists with exactly these to call. -/
theorem differentiate_keeps_greatest (shader : Shader) :
    (∃ final, Catalogue.Settles shader.functions (.ofShader shader) final
      ∧ (Catalogue.stableAttempts shader.functions (derivativeCount shader.functions)
          (.ofShader shader) : Logged ShaderError _).outcome
        = .ok (shader.functions.map final.attemptsOf))
      ∧ ∀ options r, (shader.differentiate options).outcome = .ok r →
        ∃ annotated final, shader.infer.outcome = .ok annotated
          ∧ Catalogue.Settles annotated.functions (.ofShader annotated) final
          ∧ r.shader.items = options.input.arrange final.derivativesOf annotated.items
          ∧ (∀ v ∈ Variation.all annotated.functions, ∀ h, v.outcome final = .ok h →
            .function h ∈ r.shader.items
              ∧ (∃ e body, v.function.expression.outcome = .ok e ∧ h.body = [.ret (some body)]
                ∧ body.CallsOnly fun function =>
                  IsKnown function ∨ e.Calls function ∨ function ∈ v.chainCalls final)
              ∧ ∀ called ∈ v.chainCalls final,
                (∃ w ∈ Variation.all annotated.functions, ∃ g, w.outcome final = .ok g
                  ∧ g.name = called ∧ .function g ∈ r.shader.items)
                ∧ ∀ s ∈ r.skipped, derivativeName s.parameter s.function ≠ called)
          ∧ (((Variation.all annotated.functions).map Variation.name).Nodup →
            IsGreatest { kept | Catalogue.SelfSufficient annotated kept }
              (final.existing annotated.functions)) := by
  refine ⟨shader.exists_settles, fun options r derived => ?_⟩
  obtain ⟨annotated, final, checked, settles, items, skipped⟩ := differentiate_eq_ok derived
  have emitted {v : Variation} {h : FunctionDef} (mem : v ∈ Variation.all annotated.functions)
      (derived : v.outcome final = .ok h) : .function h ∈ r.shader.items := by
    obtain ⟨memFunction, memParameter⟩ := Variation.mem_all.mp mem
    rw [items]
    exact options.input.mem_arrange memFunction
      (Catalogue.mem_derivativesOf.mpr ⟨_, memParameter, derived⟩)
  refine ⟨annotated, final, checked, settles, items, fun v mem h derived => ?_, settles.isGreatest⟩
  refine ⟨emitted mem derived, FunctionDef.callsOnly_derivativeFunction derived, ?_⟩
  intro called calls
  obtain ⟨⟨w, memCalled, exists_, named⟩, others⟩ :=
    Variation.chainCalls_exist settles (Variation.derives_iff.mpr ⟨h, derived⟩) calls
  obtain ⟨g, derivedCalled⟩ := Variation.derives_iff.mp exists_
  refine ⟨⟨w, memCalled, g, derivedCalled, ?_, emitted memCalled derivedCalled⟩, fun s left => ?_⟩
  · rw [Variation.name_of_outcome derivedCalled, named]
  · rw [skipped] at left
    obtain ⟨u, memLeft, error, failed, rfl⟩ := Variation.mem_skipped.mp left
    exact others u memLeft (by rw [Variation.derives, failed]; rfl)

/-- `float name(float x) { return body; }` -/
def ofBody (name : String) (body : Expr) : Item :=
  .function ⟨name, [⟨"x", .float, .input⟩], .float, [.ret (some body)]⟩

/-- A function with no derivative, a caller of it, a function with a derivative and a caller of
that. -/
def jumping : Shader :=
  let x : Expr := .ident "x" .float
  ⟨[ofBody "jump" (.conditional (.binary .less x x (.scalar .bool)) x x .float),
    ofBody "follow" (.call "jump" [x] .float), ofBody "wave" (.call "sin" [x] .float),
    ofBody "ripple" (.call "wave" [x] .float)]⟩

/-- The derivatives of `wave` and `ripple` are there, and those of `jump` and `follow` are not. -/
lemma differentiate_jumping : ∃ r, (jumping.differentiate ⟨.embedded, true⟩).outcome = .ok r
      ∧ r.shader.functions.map (·.name)
        = ["jump", "follow", "wave", "ddx_wave", "ripple", "ddx_ripple"]
      ∧ r.skipped.map (fun s => (s.function, s.parameter)) = [("jump", "x"), ("follow", "x")] := by
  have evaluated : ((jumping.differentiate ⟨.embedded, true⟩).outcome.toOption.map fun r =>
      (r.shader.functions.map (·.name), r.skipped.map fun s => (s.function, s.parameter)))
        = some (["jump", "follow", "wave", "ddx_wave", "ripple", "ddx_ripple"],
          [("jump", "x"), ("follow", "x")]) := by
    decide +kernel
  obtain ⟨r, derived, names⟩ := exists_ok_of_map evaluated
  exact ⟨r, derived, congrArg Prod.fst names, congrArg Prod.snd names⟩

/-- In `jumping` the function `jump` has no derivative, and so `follow` has none. -/
theorem jumping_keeps_greatest :
    ∃ (r : DerivedShader) (final : Catalogue),
      (jumping.differentiate ⟨.embedded, true⟩).outcome = .ok r
        ∧ r.shader.functions.map (·.name)
          = ["jump", "follow", "wave", "ddx_wave", "ripple", "ddx_ripple"]
        ∧ r.skipped.map (·.function) = ["jump", "follow"]
        ∧ r.shader.items = InputHandling.embedded.arrange final.derivativesOf jumping.items
        ∧ IsGreatest { kept | Catalogue.SelfSufficient jumping kept }
          (final.existing jumping.functions) := by
  obtain ⟨r, derived, names, pairs⟩ := differentiate_jumping
  have left : r.skipped.map (·.function) = ["jump", "follow"] := by
    simpa [Function.comp_def] using congrArg (List.map Prod.fst) pairs
  obtain ⟨annotated, final, checked, -, items, -, greatest⟩ :=
    jumping.differentiate_keeps_greatest.2 _ r derived
  have checks : jumping.infer.outcome = .ok jumping := rfl
  obtain rfl := Except.ok.inj (checks.symm.trans checked)
  exact ⟨r, final, derived, names, left, items, greatest (by decide +kernel)⟩

end Shader

end ShaderAlgebra
