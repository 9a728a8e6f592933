import Mathlib.Dynamics.PeriodicPts.Defs
import ShaderAlgebra.Proofs.Expr.Parts
import ShaderAlgebra.Simplify.Pass

/-!
# Where repeated passes end

Simplification makes at most `passLimit` passes. This module says what tree it ends on, and when a
second simplification would leave that tree alone.

A pass is one step of a deterministic system (`Rules.step`). A pass in which no rule fires gives its
tree back unchanged, and it is exactly a pass over a normal tree: one to whose subtrees no rule
applies (`pass_fired_eq_nil_iff`). So the result is the tree after `passLimit` steps, whether the
passes stopped by themselves or ran into the limit (`simplify_result`).

A relation that holds across every change of a rule, and that goes from the parts of a node to the
node, holds between a tree and its simplified form (`simplify_related`).
-/

namespace ShaderAlgebra.Rules

open List
open ShaderAlgebra.Expr (Within)

variable {rules : Rules} {e : Expr}

/-! ## Rules at the root -/

/-- No rule fires at the root exactly if none applies there. -/
lemma settle_fired_eq_nil_iff : (rules.settle e).2 = [] ↔ ∀ rule ∈ rules, rule.apply e = none := by
  induction rules with
  | nil => simp [settle]
  | cons rule rest ih =>
    cases applied : rule.apply e with
    | none => simp [settle, applied, ih]
    | some new => simp [settle, applied]

/-- If no rule fires, the root is as it was. -/
lemma settle_eq_self (quiet : (rules.settle e).2 = []) : (rules.settle e).1 = e := by
  induction rules with
  | nil => rfl
  | cons rule rest ih =>
    cases applied : rule.apply e with
    | none =>
      simp only [settle, applied] at quiet ⊢
      exact ih quiet
    | some new => simp [settle, applied] at quiet

/-! ## One pass -/

/-- The tree after one pass. -/
def step (rules : Rules) (e : Expr) : Expr := (rules.pass e).1

lemma passAll_eq (rules : Rules) (es : List Expr) :
    rules.passAll es = (es.map rules.step, es.flatMap fun e => (rules.pass e).2) := by
  induction es with
  | nil => simp [passAll]
  | cons e es ih => simp [passAll, ih, step]

/-- A pass treats the direct parts, and then gives the rules their chance at the node over them. -/
lemma step_eq (rules : Rules) (e : Expr) :
    rules.step e = (rules.settle (e.mapParts rules.step)).1 := by
  cases e <;> simp [step, pass, Expr.mapParts, passAll_eq]

/-- The rules that fire in a pass: those in the direct parts, and then those at the node. -/
lemma pass_fired (rules : Rules) (e : Expr) : (rules.pass e).2 =
      (e.children.flatMap fun part => (rules.pass part).2)
        ++ (rules.settle (e.mapParts rules.step)).2 := by
  cases e <;> simp [step, pass, Expr.mapParts, Expr.children, passAll_eq]

/-- A pass in which no rule fires gives its tree back. -/
lemma step_eq_self : (rules.pass e).2 = [] → rules.step e = e := by
  induction e using Expr.induction with
  | node e ih =>
    intro quiet
    rw [pass_fired, append_eq_nil_iff, flatMap_eq_nil_iff] at quiet
    have same : e.mapParts rules.step = e :=
      Expr.mapParts_eq_self fun part mem => ih part mem (quiet.1 part mem)
    rw [step_eq, settle_eq_self quiet.2, same]

/-- A tree to whose subtrees no rule applies. -/
def IsNormal (rules : Rules) (e : Expr) : Prop :=
  ∀ s, Within s e → ∀ rule ∈ rules, rule.apply s = none

/-- No rule fires in a pass exactly if the tree is normal. -/
lemma pass_fired_eq_nil_iff : (rules.pass e).2 = [] ↔ rules.IsNormal e := by
  induction e using Expr.induction with
  | node e ih =>
    rw [pass_fired, append_eq_nil_iff, flatMap_eq_nil_iff, IsNormal,
      Expr.forall_within_iff, and_comm]
    have parts : (∀ part ∈ e.children, (rules.pass part).2 = []) ↔
        ∀ part ∈ e.children, ∀ s, Within s part → ∀ rule ∈ rules, rule.apply s = none :=
      forall₂_congr ih
    rw [← parts]
    -- Once the parts are quiet the node that the rules see is the node itself.
    refine and_congr_left fun quiet => ?_
    have same : e.mapParts rules.step = e :=
      Expr.mapParts_eq_self fun part mem => step_eq_self (quiet part mem)
    rw [same, settle_fired_eq_nil_iff]

/-- A normal tree is one that a pass leaves alone. -/
lemma IsNormal.step_eq (normal : rules.IsNormal e) : rules.step e = e :=
  step_eq_self (pass_fired_eq_nil_iff.mpr normal)

/-! ## Repeated passes -/

/-- Passes that stop early end on the same tree as passes that do not: what is left out would change
nothing. -/
lemma repeatPasses_result (rules : Rules) (left done changes : Nat) (e : Expr) :
    (rules.repeatPasses left done changes e).result = rules.step^[left] e := by
  induction left generalizing done changes e with
  | zero => rfl
  | succ left ih =>
    cases fired : (rules.pass e).2 with
    | nil =>
      have fixed : rules.step e = e := step_eq_self fired
      simp only [repeatPasses, fired, isEmpty_nil, if_true]
      rw [Function.iterate_fixed fixed]
      exact fixed
    | cons rule rest =>
      simp only [repeatPasses, fired, isEmpty_cons, Bool.false_eq_true, if_false]
      rw [ih, Function.iterate_succ_apply]
      rfl

/-- Passes report no change exactly if there was none before them and they start on a normal tree.
-/
lemma repeatPasses_changed_eq_false_iff (rules : Rules) (left done changes : Nat) (e : Expr) :
    (rules.repeatPasses (left + 1) done changes e).changed = false ↔
      changes = 0 ∧ rules.IsNormal e := by
  rw [← pass_fired_eq_nil_iff]
  induction left generalizing done changes e with
  | zero => cases fired : (rules.pass e).2 <;> simp [repeatPasses, fired]
  | succ left ih =>
    cases fired : (rules.pass e).2 with
    | nil => simp [repeatPasses, fired]
    | cons rule rest =>
      rw [repeatPasses]
      simp only [fired, isEmpty_cons, Bool.false_eq_true, if_false, ih]
      simp

/-- Passes warn that they gave up exactly if none of them started on a normal tree. -/
lemma noFixedPoint_mem_repeatPasses_iff (rules : Rules) (left done changes : Nat) (e : Expr) :
    Event.noFixedPoint (done + left) (rules.step^[left] e).text
        ∈ (rules.repeatPasses left done changes e).events
      ↔ ∀ passes < left, ¬rules.IsNormal (rules.step^[passes] e) := by
  induction left generalizing done changes e with
  | zero => simp [repeatPasses]
  | succ left ih =>
    rw [Nat.forall_lt_succ_left, Function.iterate_zero_apply, ← pass_fired_eq_nil_iff]
    cases fired : (rules.pass e).2 with
    | nil => by_cases changed : 0 < changes <;> simp [repeatPasses, fired, changed]
    | cons rule rest =>
      have next := ih (done + 1) (changes + (rule :: rest).length) (rules.step e)
      rw [show done + 1 + left = done + (left + 1) by omega] at next
      simp only [repeatPasses, fired, isEmpty_cons, Bool.false_eq_true, if_false,
        Function.iterate_succ_apply]
      simpa [step] using next

/-- Simplification ends on the tree after `passLimit` passes. -/
lemma simplify_result (rules : Rules) (e : Expr) :
    (rules.simplify e).result = rules.step^[passLimit] e :=
  repeatPasses_result rules passLimit 0 0 e

/-- Simplification warns that it gave up exactly if no tree before the last is normal. -/
lemma noFixedPoint_mem_simplify_iff (rules : Rules) (e : Expr) :
    Event.noFixedPoint passLimit (rules.simplify e).result.text ∈ (rules.simplify e).events
      ↔ ∀ passes < passLimit, ¬rules.IsNormal (rules.step^[passes] e) := by
  rw [simplify_result, ← noFixedPoint_mem_repeatPasses_iff rules passLimit 0 0 e, Nat.zero_add]
  rfl

/-- Simplification reports no change exactly on the normal trees. -/
lemma simplify_changed_eq_false_iff (rules : Rules) (e : Expr) :
    (rules.simplify e).changed = false ↔ rules.IsNormal e := by
  rw [simplify, show passLimit = 63 + 1 from rfl, repeatPasses_changed_eq_false_iff]
  simp

/-- A tree that is normal after some passes is not changed by more of them. -/
lemma iterate_step_of_isNormal {early late : Nat} (le : early ≤ late)
    (normal : rules.IsNormal (rules.step^[early] e)) :
    rules.step^[late] e = rules.step^[early] e := by
  obtain ⟨more, rfl⟩ := Nat.exists_eq_add_of_le' le
  rw [Function.iterate_add_apply]
  exact Function.iterate_fixed normal.step_eq more

/-- The passes have come to rest by the limit exactly if one of the trees on the way is normal. -/
lemma isNormal_simplify_iff (rules : Rules) (e : Expr) : rules.IsNormal (rules.simplify e).result ↔
      ∃ passes ≤ passLimit, rules.IsNormal (rules.step^[passes] e) := by
  rw [simplify_result]
  constructor
  · intro normal
    exact ⟨passLimit, le_rfl, normal⟩
  · rintro ⟨passes, le, normal⟩
    rwa [iterate_step_of_isNormal le normal]

/-! ## Simplifying again -/

/-- Simplifying the simplified tree gives the same tree again. -/
def IdempotentAt (rules : Rules) (e : Expr) : Prop :=
  (rules.simplify (rules.simplify e).result).result = (rules.simplify e).result

/-- Where the passes come to rest at some time, they can only come back to a tree by resting on it.
-/
lemma idempotentAt_iff_of_rests {time : Nat}
    (rests : rules.step (rules.step^[time] e) = rules.step^[time] e) :
    rules.IdempotentAt e ↔ rules.step (rules.simplify e).result = (rules.simplify e).result := by
  rw [IdempotentAt, simplify_result rules (rules.simplify e).result]
  constructor
  · intro again
    have round : Function.IsPeriodicPt rules.step passLimit (rules.simplify e).result := again
    -- A multiple of the limit that is past the time of rest.
    obtain ⟨extra, past⟩ : ∃ extra, passLimit * time + passLimit = extra + time :=
      Nat.exists_eq_add_of_le' (Nat.le_add_right_of_le (Nat.le_mul_of_pos_left time (by decide)))
    have late : (rules.simplify e).result = rules.step^[time] e := by
      rw [← (round.mul_const time).eq, simplify_result, ← Function.iterate_add_apply, past,
        Function.iterate_add_apply, Function.iterate_fixed rests]
    rw [late, rests]
  · intro fixed
    exact Function.iterate_fixed fixed passLimit

/-! ## What passes keep -/

section Kept

variable {rules : Rules} {R : Expr → Expr → Prop}

section

variable (refl : ∀ e, R e e) (trans : ∀ {a b c}, R a b → R b c → R a c)

include refl trans

lemma settle_related (changes : ∀ rule ∈ rules, ∀ {e new}, rule.apply e = some new → R e new)
    (e : Expr) : R e (rules.settle e).1 := by
  induction rules generalizing e with
  | nil => exact refl e
  | cons rule rest ih =>
    have inRest := ih fun oth mem => changes oth (mem_cons_of_mem _ mem)
    cases applied : rule.apply e with
    | none =>
      simp only [settle, applied]
      exact inRest e
    | some new =>
      simp only [settle, applied]
      exact trans (changes rule mem_cons_self applied) (inRest new)

variable (parts : ∀ {e f}, (∀ part ∈ e.children, R part (f part)) → R e (e.mapParts f))
  (changes : ∀ rule ∈ rules, ∀ {e new}, rule.apply e = some new → R e new)

include parts changes

/-- A relation that the changes of the rules stay in, and that goes from the parts of a node to the
node, is one that a pass stays in. -/
lemma step_related (e : Expr) : R e (rules.step e) := by
  induction e using Expr.induction with
  | node e ih =>
    rw [step_eq]
    exact trans (parts ih) (settle_related refl trans changes _)

lemma iterate_related (passes : Nat) (e : Expr) : R e (rules.step^[passes] e) := by
  induction passes generalizing e with
  | zero => exact refl e
  | succ passes ih =>
    rw [Function.iterate_succ_apply]
    exact trans (step_related refl trans parts changes e) (ih _)

/-- The same for simplification. -/
lemma simplify_related (e : Expr) : R e (rules.simplify e).result :=
  simplify_result rules e ▸ iterate_related refl trans parts changes passLimit e

end

end Kept

end ShaderAlgebra.Rules
