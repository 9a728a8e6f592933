import ShaderAlgebra.Proofs.Simplify.Typing

/-!
# Simplification keeps literals finite

A number that is not finite has no literal of its own and is written as a division by zero. The
rules never put such a number into a tree: folding gives up where the value is not finite, a
negated literal is as finite as it was, and the constants that are put in are zero, one and two.
-/

namespace ShaderAlgebra

open ShaderAlgebra.Expr

namespace Expr

/-- No literal in the tree is an infinity or a NaN. -/
def HasFiniteLiterals (e : Expr) : Prop :=
  ∀ s, Within s e → ∀ value ∈ s.literal?, value.isFinite = true

end Expr

namespace Rules

/-- No rule puts in a literal that is not finite. -/
lemma endures_finite (typed : Expr → Prop) :
    Endures typed fun s => ∀ val ∈ s.literal?, val.isFinite where
  literal finite := by simpa [ofLiteral, literal?] using finite
  opposite {x ty} finite := by
    have same : (-x).isFinite = x.isFinite := rfl
    simpa [ofFloat, ofLiteral, literal?, Literal.isFinite, same] using finite
  filled _ _ _ := by simp [literal?]
  unary _ _ := by simp [literal?]
  binary _ _ _ := by simp [literal?]

/-- Simplification keeps literals finite, and so does every pass. -/
theorem simplify_hasFiniteLiterals (e : Expr) (finite : e.HasFiniteLiterals) (rules : Rules) :
    (∀ passes, (rules.step^[passes] e).HasFiniteLiterals)
      ∧ (rules.simplify e).result.HasFiniteLiterals := by
  have after : ∀ passes, (rules.step^[passes] e).HasFiniteLiterals := by
    refine forall_within_passes (fun {e f} own => ?_) endures_finite rules finite
    have same : (e.mapParts f).literal? = e.literal? := by cases e <;> rfl
    rwa [same]
  exact ⟨after, simplify_result rules e ▸ after passLimit⟩

/-- The quotient `1.0 / 0.0` is not folded. -/
theorem simplify_hasFiniteLiterals_quotient :
    let e := Expr.binary .divide (ofFloat Single.one) (ofFloat Single.zero) Ty.float
    e.HasFiniteLiterals ∧ (simplify Rule.all e).result.HasFiniteLiterals := by
  intro e
  have one : Single.one.isFinite = true := by decide +kernel
  have zero : Single.zero.isFinite = true := rfl
  have finite : e.HasFiniteLiterals := within_pair rfl (by simp [literal?])
    (within_leaf rfl ((endures_finite e.Within).literal one))
    (within_leaf rfl ((endures_finite e.Within).literal zero))
  exact ⟨finite, (simplify_hasFiniteLiterals e finite Rule.all).2⟩

end Rules

end ShaderAlgebra
