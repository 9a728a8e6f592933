import ShaderAlgebra.Proofs.Calculus.Stable

/-!
# What a derived shader holds

Every derivative of every function is either among the items or left out with the reason
(`Shader.differentiate_accounts`). A shader that may not do without any fails at the first that
would be left out.

The name of a derivative is put together from a parameter and a function, with an underscore between
them. Names of parameters and functions may have underscores of their own, so different derivatives
can get one name (`derivativeName_eq_iff`), and a function can have the name of a derivative. That
no name is given twice is a condition on the shader (`Shader.nodup_names_iff`).
-/

namespace ShaderAlgebra

open List

/-! ## Placement -/

namespace Shader

/-- In a derived shader the structs and globals stand as they did and the functions with their
derivatives where the input is put; a derivative of a function by a parameter that is not there is
listed with its error. A shader that may not lack derivatives is the same one if the list is empty,
and fails with the first of the list otherwise. -/
theorem differentiate_accounts (shader : Shader) (input : InputHandling) :
    (∀ r, (shader.differentiate ⟨input, true⟩).outcome = .ok r →
      ∃ annotated final, shader.infer.outcome = .ok annotated
        ∧ Catalogue.Settles annotated.functions (.ofShader annotated) final
        ∧ r.shader.items = input.arrange final.derivativesOf annotated.items
        ∧ r.shader.items.filter Item.isDeclaration = annotated.items.filter Item.isDeclaration
        ∧ r.shader.functions = input.functions final.derivativesOf annotated.functions
        ∧ r.skipped = annotated.functions.flatMap final.skippedOf
        ∧ ∀ v ∈ Variation.all annotated.functions,
          Xor (∃ h ∈ final.derivativesOf v.function, v.outcome final = .ok h ∧ h.name = v.name)
            (∃ s ∈ r.skipped, v.outcome final = .error s.error
              ∧ (s.function, s.parameter) = v.pair))
      ∧ (shader.differentiate ⟨input, false⟩).outcome
        = (shader.differentiate ⟨input, true⟩).outcome >>= fun r =>
          match r.skipped with
          | [] => .ok r
          | s :: _ => .error (.derivative s.function s.parameter s.error) := by
  constructor
  · intro r derived
    obtain ⟨annotated, final, inferred, settles, items, skipped⟩ := differentiate_eq_ok derived
    refine ⟨annotated, final, inferred, settles, items, ?_, ?_, skipped, fun v mem => ?_⟩
    · rw [items, InputHandling.declarations_arrange]
    · have functions := InputHandling.functions_arrange input final.derivativesOf annotated.items
      rwa [← items] at functions
    · obtain ⟨-, memParameter⟩ := Variation.mem_all.mp mem
      cases outcome : v.outcome final with
      | ok h =>
        refine .inl ⟨⟨h, ?_, rfl, Variation.name_of_outcome outcome⟩, by simp⟩
        exact Catalogue.mem_derivativesOf.mpr ⟨_, memParameter, outcome⟩
      | error error =>
        refine .inr ⟨⟨⟨v.pair.1, v.pair.2, error⟩, ?_, rfl, rfl⟩, by simp⟩
        rw [skipped]
        exact Variation.mem_skipped.mpr ⟨v, mem, error, outcome, rfl⟩
  · cases inferred : shader.infer.outcome with
    | error error =>
      simp only [differentiate, Logged.outcome_bind, Logged.outcome_mapError, inferred]
      rfl
    | ok annotated =>
      obtain ⟨final, -, outcome⟩ := outcome_differentiate inferred
      have skips (skipped : List Skipped) : (DerivativeOptions.mk input true).leaveOut skipped
          = .ok () := DerivativeOptions.leaveOut_of_skips rfl skipped
      rw [outcome, outcome, skips]
      cases annotated.functions.flatMap final.skippedOf <;> rfl

/-- Two derivatives of `jumping` are held and two are listed, and without leave to skip the first of
these is the error. -/
theorem differentiate_accounts_jumping :
    ∃ (r : DerivedShader) (final : Catalogue),
      (jumping.differentiate ⟨.embedded, true⟩).outcome = .ok r
        ∧ r.shader.functions.map (·.name)
          = ["jump", "follow", "wave", "ddx_wave", "ripple", "ddx_ripple"]
        ∧ r.skipped.map (fun s => (s.function, s.parameter)) = [("jump", "x"), ("follow", "x")]
        ∧ r.shader.functions = InputHandling.embedded.functions final.derivativesOf jumping.functions
        ∧ r.skipped = jumping.functions.flatMap final.skippedOf
        ∧ (∀ v ∈ Variation.all jumping.functions,
          Xor (∃ h ∈ final.derivativesOf v.function, v.outcome final = .ok h ∧ h.name = v.name)
            (∃ s ∈ r.skipped, v.outcome final = .error s.error
              ∧ (s.function, s.parameter) = v.pair))
        ∧ ∃ error, (jumping.differentiate ⟨.embedded, false⟩).outcome
          = .error (.derivative "jump" "x" error) := by
  obtain ⟨⟨derivedShader, skipped⟩, derived, names, pairs⟩ := differentiate_jumping
  obtain ⟨accounts, strict⟩ := jumping.differentiate_accounts .embedded
  obtain ⟨annotated, final, inferred, -, -, -, functions, left, each⟩ := accounts _ derived
  have checks : jumping.infer.outcome = .ok jumping := rfl
  obtain rfl := Except.ok.inj (checks.symm.trans inferred)
  refine ⟨_, final, derived, names, pairs, functions, left, each, ?_⟩
  obtain ⟨⟨_, _, error⟩, rest, rfl, ⟨⟩, -⟩ := map_eq_cons_iff.mp pairs
  exact ⟨error, strict.trans (by rw [derived]; rfl)⟩

end Shader

/-! ## Names -/

/-- Two derivatives, each given by a function and a parameter, have one name because the underscore
after the parameter can be read at two places. -/
def Merges (a b : String × String) : Prop :=
  ∃ middle, a.2 = b.2 ++ "_" ++ middle ∧ b.1 = middle ++ "_" ++ a.1

lemma Merges.ne {a b : String × String} (merges : Merges a b) : a ≠ b := by
  rintro rfl
  obtain ⟨mid, longer, -⟩ := merges
  have lengths := congrArg String.length longer
  have one : "_".length = 1 := rfl
  simp only [String.length_append] at lengths
  omega

/-- When two derivatives have one name. -/
lemma derivativeName_eq_iff {a b : String × String} :
    derivativeName a.2 a.1 = derivativeName b.2 b.1 ↔ a = b ∨ Merges a b ∨ Merges b a := by
  obtain ⟨f, p⟩ := a
  obtain ⟨g, q⟩ := b
  have same : derivativeName p f = derivativeName q g ↔
      p.toList ++ '_' :: f.toList = q.toList ++ '_' :: g.toList := by
    simp [derivativeName, ← String.toList_inj]
  simp only [same, Merges, Prod.mk.injEq, ← String.toList_inj, String.toList_append]
  constructor
  · intro split
    rcases append_eq_append_iff.mp split with ⟨rest, param, fn⟩ | ⟨rest, param, fn⟩
    · cases rest with
      | nil => exact .inl (by simp_all)
      | cons c mid =>
        obtain ⟨rfl, fn⟩ := List.cons.inj fn
        exact .inr (.inr ⟨String.ofList mid, by simp_all⟩)
    · cases rest with
      | nil => exact .inl (by simp_all)
      | cons c mid =>
        obtain ⟨rfl, fn⟩ := List.cons.inj fn
        exact .inr (.inl ⟨String.ofList mid, by simp_all⟩)
  · rintro (⟨fn, param⟩ | ⟨mid, param, fn⟩ | ⟨mid, param, fn⟩) <;>
      simp_all

namespace Variation

variable {functions : List FunctionDef} {final : Catalogue}

lemma pairs_nodup (nms : (functions.map (·.name)).Nodup)
    (ps : ∀ f ∈ functions, (f.parameters.map (·.name)).Nodup) :
    ((all functions).map pair).Nodup := by
  induction functions with
  | nil => exact .nil
  | cons f rest ih =>
    obtain ⟨fresh, nms⟩ := nodup_cons.mp nms
    have fst : ((f.parameters.map (Variation.mk f)).map pair).Nodup := by
      exact .of_map Prod.snd (by simpa [Function.comp_def, pair] using ps f mem_cons_self)
    rw [all, flatMap_cons, map_append]
    refine fst.append (ih nms fun g mem => ps g (mem_cons_of_mem _ mem)) ?_
    intro a own oth
    obtain ⟨v, mem, rfl⟩ := mem_map.mp own
    obtain ⟨p, -, rfl⟩ := mem_map.mp mem
    obtain ⟨w, mem, same⟩ := mem_map.mp oth
    exact fresh (mem_map.mpr ⟨_, (mem_all.mp mem).1, congrArg Prod.fst same⟩)

/-- The names of the derivatives that exist. -/
lemma names_derivativesOf : (functions.flatMap final.derivativesOf).map (·.name)
      = ((all functions).filter (·.derives final)).map name := by
  have one : functions.flatMap final.derivativesOf
      = (all functions).filterMap fun v => (v.outcome final).toOption := by
    simp only [all, filterMap_flatMap, filterMap_map]
    rfl
  rw [one]
  generalize all functions = vs
  induction vs with
  | nil => rfl
  | cons v vs ih =>
    rw [filterMap_cons, filter_cons, derives]
    cases outc : v.outcome final with
    | ok h => exact congrArg₂ List.cons (name_of_outcome outc) ih
    | error error => exact ih

end Variation

namespace Shader

/-- The derivatives that a derived shader holds: those of the shader that are not left out. -/
def heldPairs (shader : Shader) (skipped : List Skipped) : List (String × String) :=
  ((Variation.all shader.functions).map Variation.pair).filter
    (· ∉ skipped.map fun s => (s.function, s.parameter))

variable {shader annotated : Shader} {options : DerivativeOptions} {r : DerivedShader}

/-- Inference keeps the names of functions and parameters. -/
lemma pairs_of_infer (inf : shader.infer.outcome = .ok annotated) :
    (Variation.all annotated.functions).map Variation.pair
      = (Variation.all shader.functions).map Variation.pair := by
  let pairs (f : String × Overload) := f.2.parameters.map fun p => (f.1, p.name)
  have forms := congrArg (List.flatMap pairs) (SymbolTable.forms_of_infer inf)
  simpa [flatMap_map, pairs, FunctionDef.form, SymbolTable.overloadOf, Function.comp_def,
    Variation.all, map_flatMap, Variation.pair] using forms

lemma functionNames_of_infer (inf : shader.infer.outcome = .ok annotated) :
    annotated.functions.map (·.name) = shader.functions.map (·.name) := by
  simpa [Function.comp_def] using congrArg (List.map Prod.fst) (SymbolTable.forms_of_infer inf)

/-- The derivatives that exist are those that are not left out, if each is one of its own. -/
lemma heldPairs_eq {final : Catalogue}
    (nodup : ((Variation.all annotated.functions).map Variation.pair).Nodup) :
    annotated.heldPairs (annotated.functions.flatMap final.skippedOf)
      = ((Variation.all annotated.functions).filter (·.derives final)).map Variation.pair := by
  rw [heldPairs, filter_map]
  refine congrArg (List.map _) (filter_congr fun v mem => ?_)
  rw [Function.comp_apply, Bool.eq_iff_iff, decide_eq_true_iff, Variation.derives_iff]
  constructor
  · intro held
    cases outc : v.outcome final with
    | ok h => exact ⟨h, rfl⟩
    | error error =>
      refine (held (mem_map.mpr ⟨⟨_, _, error⟩, ?_, rfl⟩)).elim
      exact Variation.mem_skipped.mpr ⟨v, mem, error, outc, rfl⟩
  · rintro ⟨h, der⟩ left
    obtain ⟨s, ins, same⟩ := mem_map.mp left
    obtain ⟨w, memW, error, failed, rfl⟩ := Variation.mem_skipped.mp ins
    obtain rfl := inj_on_of_nodup_map nodup memW mem same
    cases failed.symm.trans der

/-- The functions of a derived shader have different names exactly if no two of its derivatives merge
and, where functions stay, none of them has the name of a derivative. -/
theorem nodup_names_iff (derived : (shader.differentiate options).outcome = .ok r)
    (functions : (shader.functions.map (·.name)).Nodup)
    (parameters : ∀ f ∈ shader.functions, (f.parameters.map (·.name)).Nodup) :
    (r.shader.functions.map (·.name)).Nodup ↔
      (∀ a ∈ shader.heldPairs r.skipped, ∀ b ∈ shader.heldPairs r.skipped, ¬Merges a b)
        ∧ (options.input ≠ .omitted → ∀ a ∈ shader.heldPairs r.skipped,
          derivativeName a.2 a.1 ∉ shader.functions.map (·.name)) := by
  obtain ⟨annotated, final, inferred, -, items, skipped⟩ := differentiate_eq_ok derived
  have pairs := pairs_of_infer inferred
  have distinct := pairs ▸ Variation.pairs_nodup functions parameters
  have held : shader.heldPairs r.skipped
      = ((Variation.all annotated.functions).filter (·.derives final)).map Variation.pair := by
    rw [← heldPairs_eq distinct, heldPairs, heldPairs, pairs, skipped]
  have emitted : (annotated.functions.flatMap final.derivativesOf).map (·.name)
      = (shader.heldPairs r.skipped).map fun a => derivativeName a.2 a.1 := by
    rw [Variation.names_derivativesOf, held, List.map_map]
    rfl
  have all : (r.shader.functions.map (·.name)).Perm
      ((options.input.kept annotated.functions ++ annotated.functions.flatMap final.derivativesOf).map
        (·.name)) := by
    have functions := InputHandling.functions_arrange options.input final.derivativesOf annotated.items
    rw [← items] at functions
    exact (functions ▸ options.input.functions_perm final.derivativesOf _).map _
  have apart : (shader.heldPairs r.skipped).Nodup := (pairs ▸ distinct).filter _
  generalize shader.heldPairs r.skipped = held at emitted apart ⊢
  have names : (held.map fun a => derivativeName a.2 a.1).Nodup ↔
      ∀ a ∈ held, ∀ b ∈ held, ¬Merges a b := by
    rw [List.nodup_map_iff_inj_on apart]
    constructor
    · intro injective a memA b memB merges
      exact merges.ne (injective a memA b memB (derivativeName_eq_iff.mpr (.inr (.inl merges))))
    · intro none a memA b memB same
      rcases derivativeName_eq_iff.mp same with same | merges | merges
      · exact same
      · exact absurd merges (none a memA b memB)
      · exact absurd merges (none b memB a memA)
  rw [all.nodup_iff, List.map_append, emitted, ← names]
  cases options.input with
  | omitted => simp [InputHandling.kept]
  | embedded | prepended =>
    rw [InputHandling.kept, functionNames_of_infer inferred, List.nodup_append]
    · constructor
      · rintro ⟨-, own, fresh⟩
        exact ⟨own, fun _ a mem inside => fresh _ inside _ (List.mem_map_of_mem mem) rfl⟩
      · rintro ⟨own, fresh⟩
        refine ⟨functions, own, ?_⟩
        rintro name inside _ mem rfl
        obtain ⟨a, memA, rfl⟩ := List.mem_map.mp mem
        exact fresh (by simp) a memA inside
    · simp

/-- The derivatives of `jumping` stand beside its functions under names of their own. -/
theorem nodup_names_jumping :
    ∃ r, (jumping.differentiate ⟨.embedded, true⟩).outcome = .ok r
      ∧ (r.shader.functions.map (·.name)).Nodup
      ∧ (∀ a ∈ jumping.heldPairs r.skipped, ∀ b ∈ jumping.heldPairs r.skipped, ¬Merges a b)
      ∧ ∀ a ∈ jumping.heldPairs r.skipped,
        derivativeName a.2 a.1 ∉ jumping.functions.map (·.name) := by
  obtain ⟨r, derived, names, -⟩ := differentiate_jumping
  have distinct : (r.shader.functions.map (·.name)).Nodup := by
    rw [names]
    decide
  obtain ⟨apart, fresh⟩ := (nodup_names_iff derived (by decide) (by decide)).mp distinct
  exact ⟨r, derived, distinct, apart, fresh (by decide)⟩

/-- `float y_z(float x) { return x; } float z(float x_y) { return x_y; }` -/
def merging : Shader :=
  ⟨[ofBody "y_z" (.ident "x" .float),
    .function ⟨"z", [⟨"x_y", .float, .input⟩], .float, [.ret (some (.ident "x_y" .float))]⟩]⟩

/-- Functions of different names, with parameters of different names, whose derivatives have one
name. -/
theorem differentiate_merging :
    (merging.functions.map (·.name)).Nodup
      ∧ (∀ f ∈ merging.functions, (f.parameters.map (·.name)).Nodup)
      ∧ ∃ r, (merging.differentiate ⟨.omitted, false⟩).outcome = .ok r
        ∧ r.shader.functions.map (·.name) = ["ddx_y_z", "ddx_y_z"] := by
  refine ⟨by decide, by decide, ?_⟩
  have evaluated : ((merging.differentiate ⟨.omitted, false⟩).outcome.toOption.map fun r =>
      r.shader.functions.map (·.name)) = some ["ddx_y_z", "ddx_y_z"] := by
    decide +kernel
  exact exists_ok_of_map evaluated

end Shader

end ShaderAlgebra
