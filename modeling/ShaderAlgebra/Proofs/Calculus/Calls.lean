import ShaderAlgebra.Proofs.Calculus.ChainCalls
import ShaderAlgebra.Proofs.Simplify.Calls

/-!
# Calls in derivatives

What the derivative of an expression calls is called in the expression, is a derivative function
that the chain rule adds (`Derivation.chainCalls`), or is a type or a built-in function: no rule
brings in a call of anything else. Nor does it leave the derivative of an argument out that mentions
the variable, so where a derivative exists, none of the functions that the chain rule adds is missing
(`Derivation.available_of_derive`). Each rule is gone through once for both.
-/

namespace ShaderAlgebra

open List ShaderAlgebra.Derivation
open Derived

variable {op : BinaryOp} {ty : Ty}

namespace Expr.CallsOnly

variable {allowed : String → Prop} {e left right cond : Expr}

lemma binary (onlyL : left.CallsOnly allowed) (onlyR : right.CallsOnly allowed) :
    (node (Expr.binaryOf op left right)).Ensures (CallsOnly allowed) :=
  .node fun _ built => .binaryOf onlyL onlyR built

lemma negated (only : e.CallsOnly allowed) : (negate e).Ensures (CallsOnly allowed) :=
  .node fun _ built => .unaryOf only built

lemma selected (onlyCond : cond.CallsOnly allowed) (onlyL : left.CallsOnly allowed)
    (onlyR : right.CallsOnly allowed) : (select cond left right).Ensures (CallsOnly allowed) :=
  .node fun _ built => .conditionalOf onlyCond onlyL onlyR built

end Expr.CallsOnly

namespace Derivation

open ShaderAlgebra.Expr

variable {allowed : String → Prop} {d : Derivation} {val : Ty} {terms : List Expr}

lemma callsOnly_zero (known : AllowsKnown allowed) : (d.zero val).Ensures (CallsOnly allowed) := by
  intro r der
  obtain ⟨ty, -, found⟩ := zero_eq_ok.mp der
  exact .constant? known found

/-- A sum calls what its terms call. -/
lemma callsOnly_sum (known : AllowsKnown allowed) (each : ∀ t ∈ terms, t.CallsOnly allowed) :
    (d.sum terms val).Ensures (CallsOnly allowed) := by
  intro r summed
  rcases sum_keeps (fun onlyA onlyB built => .binaryOf onlyA onlyB built) each summed with
    only | derived
  · exact only
  · exact callsOnly_zero known r derived

/-- The derivative of an argument is there if the argument mentions the variable. -/
def Takes (d : Derivation) (u : Operand) : Prop :=
  d.depends u.expr = true → ∃ du, u.derivative.outcome = .ok du

end Derivation

/-- What an argument and its derivative call is allowed. -/
structure Operand.CallsOnly (u : Operand) (allowed : String → Prop) : Prop where
  expr : u.expr.CallsOnly allowed
  derivative : u.derivative.Ensures (Expr.CallsOnly allowed)

lemma Operand.CallsOnly.taken {u : Operand} {allowed : String → Prop} (part : u.CallsOnly allowed)
    (d : Derivation) : u.derivative.Ensures fun du => du.CallsOnly allowed ∧ d.Takes u :=
  fun du found => ⟨part.derivative du found, fun _ => ⟨du, found⟩⟩

/-- What is made of the derivative of an argument. -/
lemma Operand.CallsOnly.through {u : Operand} {allowed : String → Prop} {d : Derivation}
    {next : Expr → Derived Expr} (part : u.CallsOnly allowed)
    (nexts : ∀ {du : Expr}, du.CallsOnly allowed → (next du).Ensures (Expr.CallsOnly allowed)) :
    (u.derivative >>= next).Ensures fun t => t.CallsOnly allowed ∧ d.Takes u :=
  .bind (part.taken d) fun _ ⟨only, takes⟩ => (nexts only).imp fun _ only => ⟨only, takes⟩

/-- A term that is wanted if the argument that it is for mentions the variable. -/
lemma Operand.CallsOnly.termIf {u : Operand} {allowed : String → Prop} (_ : u.CallsOnly allowed)
    {d : Derivation} {term : Derived Expr}
    (each : term.Ensures fun t => t.CallsOnly allowed ∧ d.Takes u) :
    (Derived.termIf (d.depends u.expr) term).Ensures fun terms =>
      (∀ t ∈ terms, t.CallsOnly allowed) ∧ d.Takes u :=
  (Ensures.termIf each).imp fun _ ⟨all, wanted⟩ =>
    ⟨fun t mem => (all t mem).1, fun moves => (wanted moves).elim fun _ holds => holds.2 moves⟩

namespace DerivativeRule

open ShaderAlgebra.Expr

variable {allowed : String → Prop} {d : Derivation} {operands : List Operand} {u v w : Operand}
  {a b r : Expr} {bi : Builtin}

/-- What a rule makes calls what is allowed, and the derivatives of its arguments are taken. -/
structure Traced (allowed : String → Prop) (d : Derivation) (operands : List Operand) (r : Expr) :
    Prop where
  callsOnly : r.CallsOnly allowed
  takes : ∀ u ∈ operands, d.Takes u

section

variable (only : r.CallsOnly allowed) (first : d.Takes u)

include only first

lemma Traced.one : Traced allowed d [u] r := ⟨only, by simpa using first⟩

lemma Traced.two (snd : d.Takes v) : Traced allowed d [u, v] r :=
  ⟨only, by simpa using ⟨first, snd⟩⟩

lemma Traced.three (snd : d.Takes v) (third : d.Takes w) : Traced allowed d [u, v, w] r :=
  ⟨only, by simpa using ⟨first, snd, third⟩⟩

end

lemma callsOnly_float (val : Single) : (float val).CallsOnly allowed := .ofLiteral _

lemma callsOnly_oneMinusSquare (only : a.CallsOnly allowed) :
    (oneMinusSquare a).Ensures (CallsOnly allowed) :=
  .bind (only.binary only) fun _ onlySquare => (callsOnly_float _).binary onlySquare

section Known

variable (known : AllowsKnown allowed)

include known

lemma callsOnly_builtin (bi : Builtin) {args : List Expr} (only : ∀ a ∈ args, a.CallsOnly allowed) :
    (Expr.call bi.name args ty).CallsOnly allowed :=
  .call (known.builtin bi) only

lemma callsOnly_apply (bi : Builtin) (only : a.CallsOnly allowed) :
    (apply bi a).CallsOnly allowed :=
  callsOnly_builtin known bi (by simpa using only)

lemma callsOnly_unitRoot (only : a.CallsOnly allowed) : (unitRoot a).Ensures (CallsOnly allowed) :=
  .bind (callsOnly_oneMinusSquare only) fun _ onlyInner =>
    .pure (callsOnly_apply known .sqrt onlyInner)

lemma callsOnly_dotTerm (onlyA : a.CallsOnly allowed) (onlyB : b.CallsOnly allowed) :
    (dotTerm d a b).Ensures (CallsOnly allowed) := by
  unfold dotTerm
  split
  · exact .pure (callsOnly_builtin known .dot (by simpa using ⟨onlyA, onlyB⟩))
  · exact onlyA.binary onlyB

/-- A sum of a term for each of two arguments. -/
lemma sum_traces {first snd : Derived Expr} (partU : u.CallsOnly allowed)
    (partV : v.CallsOnly allowed) (byU : first.Ensures fun t => t.CallsOnly allowed ∧ d.Takes u)
    (byV : snd.Ensures fun t => t.CallsOnly allowed ∧ d.Takes v) :
    Ensures (do
      let terms ← termIf (d.depends u.expr) first
      let others ← termIf (d.depends v.expr) snd
      d.sum (terms ++ others) ty) (Traced allowed d [u, v]) :=
  .bind (partU.termIf byU) fun _ ⟨onlyTerms, takesU⟩ =>
    .bind (partV.termIf byV) fun _ ⟨onlyOthers, takesV⟩ =>
      (callsOnly_sum known (forall_mem_append.mpr ⟨onlyTerms, onlyOthers⟩)).imp
        fun _ only => .two only takesU takesV

end Known

lemma callsOnly_piecewiseConstant (known : AllowsKnown allowed) :
    (piecewiseConstant d operands).Ensures (CallsOnly allowed) := by
  unfold piecewiseConstant
  split
  · exact callsOnly_zero known
  · exact .fails _

variable (parts : ∀ u ∈ operands, u.CallsOnly allowed)

include parts

lemma only_traces : (only bi operands).Ensures fun u => operands = [u] ∧ u.CallsOnly allowed := by
  intro u found
  obtain rfl := only_eq_ok.mp found
  exact ⟨rfl, parts u (mem_singleton_self u)⟩

lemma chain_traces {out : Expr → Derived Expr} (factors : ∀ {u : Expr}, u.CallsOnly allowed →
      (out u).Ensures (Expr.CallsOnly allowed)) :
    (chain bi out d operands).Ensures (Traced allowed d operands) := by
  refine .bind (only_traces parts) fun u ⟨single, part⟩ => single ▸ ?_
  refine .bind (factors part.expr) fun factor onlyFactor => ?_
  exact (part.through onlyFactor.binary).imp fun r ⟨only, takes⟩ => .one only takes

lemma quotient_traces {below : Expr → Derived Expr} (divisors : ∀ {u : Expr}, u.CallsOnly allowed →
      (below u).Ensures (Expr.CallsOnly allowed)) :
    (quotient bi below d operands).Ensures (Traced allowed d operands) := by
  refine .bind (only_traces parts) fun u ⟨single, part⟩ => single ▸ ?_
  refine .bind (part.taken d) fun du ⟨onlyDu, takes⟩ => ?_
  refine .bind (divisors part.expr) fun divisor onlyDivisor => ?_
  exact (onlyDu.binary onlyDivisor).imp fun r only => .one only takes

variable (known : AllowsKnown allowed)

include known

lemma inverseSqrt_traces : (inverseSqrt d operands).Ensures (Traced allowed d operands) := by
  refine .bind (only_traces parts) fun u ⟨single, part⟩ => single ▸ ?_
  refine .bind (part.taken d) fun du ⟨onlyDu, takes⟩ => ?_
  refine .bind ((callsOnly_float _).binary onlyDu) fun scaled onlySc => ?_
  refine .bind (onlySc.binary (callsOnly_apply known _ part.expr)) fun above onlyAbove => ?_
  exact (onlyAbove.binary part.expr).imp fun r only => .one only takes

lemma normalize_traces : (normalize d operands).Ensures (Traced allowed d operands) := by
  refine .bind (only_traces parts) fun u ⟨single, part⟩ => single ▸ .guarded fun _ => ?_
  refine .bind (part.taken d) fun du ⟨onlyDu, takes⟩ => ?_
  have direction := callsOnly_apply known .normalize part.expr
  have both : ∀ a ∈ [apply .normalize u.expr, du], a.CallsOnly allowed := by
    simpa using ⟨direction, onlyDu⟩
  refine .bind (direction.binary (callsOnly_builtin known .dot both)) fun scaled onlySc => ?_
  refine .bind (onlyDu.binary onlySc) fun across onlyAcross => ?_
  exact (onlyAcross.binary (callsOnly_builtin known .length (by simpa using part.expr))).imp
    fun r only => .one only takes

lemma length_traces : (length d operands).Ensures (Traced allowed d operands) := by
  refine .bind (only_traces parts) fun u ⟨single, part⟩ => single ▸ ?_
  have direction := callsOnly_apply known .normalize part.expr
  exact (part.through (callsOnly_dotTerm known direction)).imp
    fun r ⟨only, takes⟩ => .one only takes

lemma distance_traces : (distance d operands).Ensures (Traced allowed d operands) := by
  unfold distance
  split
  · next u v =>
    have partU := parts u (by simp)
    have partV := parts v (by simp)
    refine .bind (partU.expr.binary partV.expr) fun diff onlyDifference => ?_
    have chg : Ensures (do subtract (← u.derivative) (← v.derivative)) fun dw =>
        dw.CallsOnly allowed ∧ d.Takes u ∧ d.Takes v := by
      refine .bind (partU.taken d) fun du ⟨onlyDu, takesU⟩ => ?_
      refine .bind (partV.taken d) fun dv ⟨onlyDv, takesV⟩ => ?_
      exact (onlyDu.binary onlyDv).imp fun dw only => ⟨only, takesU, takesV⟩
    refine .bind (chg.mapError _) fun dw ⟨onlyDw, takesU, takesV⟩ => ?_
    exact (callsOnly_dotTerm known (callsOnly_apply known _ onlyDifference) onlyDw).imp
      fun r only => .two only takesU takesV
  · exact .fails _

lemma pow_traces : (pow d operands).Ensures (Traced allowed d operands) := by
  unfold pow
  split
  · next u v =>
    have partU := parts u (by simp)
    have partV := parts v (by simp)
    have power {x : Expr} (only : x.CallsOnly allowed) :
        (Expr.call Builtin.pow.name [u.expr, x] u.expr.ty).CallsOnly allowed :=
      callsOnly_builtin known .pow (by simpa using ⟨partU.expr, only⟩)
    refine sum_traces known partU partV ?_ ?_
    · refine .bind (partV.expr.binary (callsOnly_float _)) fun low onlyLowered => ?_
      refine .bind (partV.expr.binary (power onlyLowered)) fun scaled onlySc => ?_
      exact partU.through onlySc.binary
    · have logarithm := callsOnly_apply known .log partU.expr
      refine .bind (logarithm.binary (power partV.expr)) fun scaled onlySc => ?_
      exact partV.through onlySc.binary
  · exact .fails _

lemma dot_traces : (dot d operands).Ensures (Traced allowed d operands) := by
  unfold dot
  split
  · next u v =>
    have partU := parts u (by simp)
    have partV := parts v (by simp)
    refine sum_traces known partU partV (partU.through fun onlyDu => ?_)
      (partV.through fun onlyDv => ?_)
    · exact callsOnly_dotTerm known onlyDu partV.expr
    · exact callsOnly_dotTerm known partU.expr onlyDv
  · exact .fails _

lemma cross_traces : (cross d operands).Ensures (Traced allowed d operands) := by
  unfold cross
  split
  · next u v =>
    have partU := parts u (by simp)
    have partV := parts v (by simp)
    refine .guarded fun _ => sum_traces known partU partV (partU.through fun onlyDu => .pure ?_)
      (partV.through fun onlyDv => .pure ?_)
    · exact callsOnly_builtin known .cross (by simpa using ⟨onlyDu, partV.expr⟩)
    · exact callsOnly_builtin known .cross (by simpa using ⟨partU.expr, onlyDv⟩)
  · exact .fails _

lemma mix_traces : (mix d operands).Ensures (Traced allowed d operands) := by
  unfold mix
  split
  · next u v w =>
    have partU := parts u (by simp)
    have partV := parts v (by simp)
    have partW := parts w (by simp)
    refine .bind (partU.termIf ?_) fun byFirst ⟨onlyFirst, takesU⟩ =>
      .bind (partV.termIf ?_) fun bySecond ⟨onlySecond, takesV⟩ =>
      .bind (partW.termIf ?_) fun byWeight ⟨onlyWeight, takesW⟩ => ?_
    · exact partU.through fun onlyDu =>
        .bind ((callsOnly_float _).binary partW.expr) fun rest onlyRest => onlyDu.binary onlyRest
    · exact partV.through fun onlyDv => onlyDv.binary partW.expr
    · exact .bind (partV.expr.binary partU.expr) fun span onlySpan =>
        partW.through onlySpan.binary
    · have each := forall_mem_append.mpr
        ⟨forall_mem_append.mpr ⟨onlyFirst, onlySecond⟩, onlyWeight⟩
      exact (callsOnly_sum known each).imp fun r only => .three only takesU takesV takesW
  · exact .fails _

lemma smoothStep_traces : (smoothStep d operands).Ensures (Traced allowed d operands) := by
  unfold smoothStep
  split
  · next u v w =>
    have partU := parts u (by simp)
    have partW := parts w (by simp)
    refine .guarded fun still => ?_
    refine .bind ((parts v (by simp)).expr.binary partU.expr) fun width onlyWidth => ?_
    refine .bind (partW.expr.binary partU.expr) fun offset onlyOffset => ?_
    refine .bind (onlyOffset.binary onlyWidth) fun scaled onlySc => ?_
    have clamped : (Expr.call Builtin.clamp.name [scaled, float .zero, float .one]
        scaled.ty).CallsOnly allowed :=
      callsOnly_builtin known .clamp (by simpa using ⟨onlySc, callsOnly_float _, callsOnly_float _⟩)
    refine .bind ((callsOnly_float _).binary clamped) fun sixfold onlySixfold => ?_
    refine .bind ((callsOnly_float _).binary clamped) fun rest onlyRest => ?_
    refine .bind (onlySixfold.binary onlyRest) fun slope onlySlope => ?_
    refine .bind (partW.taken d) fun dw ⟨onlyDw, takes⟩ => ?_
    refine .bind (onlySlope.binary onlyDw) fun above onlyAbove => ?_
    refine (onlyAbove.binary onlyWidth).imp fun r only => .three only ?_ ?_ takes
    · exact fun moves => absurd (by simp [moves]) still
    · exact fun moves => absurd (by simp [moves]) still
  · exact .fails _

omit known

lemma extremum_traces : (extremum bi (fun x y => node (binaryOf op x y)) d operands).Ensures
      (Traced allowed d operands) := by
  unfold extremum
  split
  · next u v =>
    have partU := parts u (by simp)
    have partV := parts v (by simp)
    refine .guarded fun _ => ?_
    refine .bind (partU.expr.binary partV.expr) fun cond onlyCond => ?_
    refine .bind (partU.taken d) fun du ⟨onlyDu, takesU⟩ => ?_
    refine .bind (partV.taken d) fun dv ⟨onlyDv, takesV⟩ => ?_
    exact (onlyCond.selected onlyDu onlyDv).imp fun r only => .two only takesU takesV
  · exact .fails _

lemma clamp_traces : (clamp d operands).Ensures (Traced allowed d operands) := by
  unfold clamp
  split
  · next u v w =>
    have partU := parts u (by simp)
    have partV := parts v (by simp)
    have partW := parts w (by simp)
    refine .guarded fun _ => ?_
    refine .bind (partU.expr.binary partW.expr) fun above onlyAbove => ?_
    refine .bind (partW.taken d) fun dw ⟨onlyDw, takesW⟩ => ?_
    refine .bind (partU.taken d) fun du ⟨onlyDu, takesU⟩ => ?_
    refine .bind (onlyAbove.selected onlyDw onlyDu) fun ins onlyInside => ?_
    refine .bind (partU.expr.binary partV.expr) fun below onlyBelow => ?_
    refine .bind (partV.taken d) fun dv ⟨onlyDv, takesV⟩ => ?_
    exact (onlyBelow.selected onlyDv onlyInside).imp fun r only => .three only takesU takesV takesW
  · exact .fails _

/-- The derivative of a call of a built-in function that is not constant between jumps calls what
the arguments and their derivatives call, and built-in functions, and takes their derivatives. -/
lemma rule_traces {rule : DerivativeRule} (known : AllowsKnown allowed)
    (found : of? bi = some rule) (moving : bi.isPiecewiseConstant = false) :
    (rule d operands).Ensures (Traced allowed d operands) := by
  have float {val : Single} : (float val).CallsOnly allowed := callsOnly_float val
  have apply {bi : Builtin} {u : Expr} (only : u.CallsOnly allowed) :
      (apply bi u).CallsOnly allowed := callsOnly_apply known bi only
  cases bi <;> cases found
  case sin | sinh | cosh | exp | abs => exact chain_traces parts fun only => .pure (apply only)
  case cos => exact chain_traces parts fun only => (apply only).negated
  case tanh => exact chain_traces parts fun only => callsOnly_oneMinusSquare (apply only)
  case exp2 => exact chain_traces parts fun only => float.binary (apply only)
  case radians | degrees => exact chain_traces parts fun _ => .pure float
  case tan => exact quotient_traces parts fun only => (apply only).binary (apply only)
  case asin => exact quotient_traces parts (callsOnly_unitRoot known)
  case acos =>
    refine .bind (quotient_traces parts (callsOnly_unitRoot known)) fun quot traced => ?_
    exact traced.callsOnly.negated.imp fun r only => ⟨only, traced.takes⟩
  case atan =>
    exact quotient_traces parts fun only =>
      .bind (only.binary only) fun square onlySquare => float.binary onlySquare
  case log => exact quotient_traces parts .pure
  case log2 => exact quotient_traces parts fun only => only.binary float
  case sqrt => exact quotient_traces parts fun only => float.binary (apply only)
  case inverseSqrt => exact inverseSqrt_traces parts known
  case fract =>
    refine .bind (only_traces parts) fun u ⟨single, part⟩ => single ▸ ?_
    exact (part.taken d).imp fun du ⟨onlyDu, takes⟩ => .one onlyDu takes
  case pow => exact pow_traces parts known
  case min | max => exact extremum_traces parts
  case clamp => exact clamp_traces parts
  case mix => exact mix_traces parts known
  case smoothStep => exact smoothStep_traces parts known
  case dot => exact dot_traces parts known
  case length => exact length_traces parts known
  case distance => exact distance_traces parts known
  case cross => exact cross_traces parts known
  case normalize => exact normalize_traces parts known
  all_goals cases moving

end DerivativeRule

namespace Derivation

open ShaderAlgebra.Expr

variable {allowed : String → Prop} {d : Derivation} {e : Expr} {left right u : Operand}
  {fn : String} {args : List Expr}

lemma takes_of_still (still : d.depends u.expr = false) : d.Takes u :=
  fun moves => by cases still.symm.trans moves

lemma takes_of_ok {du : Expr} (found : u.derivative.outcome = .ok du) : d.Takes u :=
  fun _ => ⟨du, found⟩

section

variable (partL : left.CallsOnly allowed) (partR : right.CallsOnly allowed)

include partL partR

lemma product_traces :
    (d.product left right).Ensures (DerivativeRule.Traced allowed d [left, right]) := by
  intro r der
  cases (product_form der).2 with
  | constantLeft still onR built =>
    exact .two (.binaryOf partL.expr (partR.derivative _ onR) built) (takes_of_still still)
      (takes_of_ok onR)
  | constantRight still onL built =>
    exact .two (.binaryOf (partL.derivative _ onL) partR.expr built) (takes_of_ok onL)
      (takes_of_still still)
  | both onL onR first snd built =>
    exact .two (.binaryOf (.binaryOf (partL.derivative _ onL) partR.expr first)
      (.binaryOf partL.expr (partR.derivative _ onR) snd) built) (takes_of_ok onL)
      (takes_of_ok onR)

lemma ratio_traces :
    (d.ratio left right).Ensures (DerivativeRule.Traced allowed d [left, right]) := by
  intro r der
  cases ratio_form der with
  | constantRight still onL built =>
    exact .two (.binaryOf (partL.derivative _ onL) partR.expr built) (takes_of_ok onL)
      (takes_of_still still)
  | constantLeft still onR squared prod divided built =>
    have above := CallsOnly.binaryOf partL.expr (partR.derivative _ onR) prod
    exact .two (.unaryOf (.binaryOf above (.binaryOf partR.expr partR.expr squared) divided) built)
      (takes_of_still still) (takes_of_ok onR)
  | both onL onR squared first snd diff built =>
    have above := CallsOnly.binaryOf (.binaryOf (partL.derivative _ onL) partR.expr first)
      (.binaryOf partL.expr (partR.derivative _ onR) snd) diff
    exact .two (.binaryOf above (.binaryOf partR.expr partR.expr squared) built)
      (takes_of_ok onL) (takes_of_ok onR)

lemma binary_traces :
    (d.binary op left right).Ensures (DerivativeRule.Traced allowed d [left, right]) := by
  unfold Derivation.binary
  split
  case h_1 | h_2 =>
    refine .bind (partL.taken d) fun dl ⟨onlyL, takesL⟩ => ?_
    refine .bind (partR.taken d) fun dr ⟨onlyR, takesR⟩ => ?_
    exact (onlyL.binary onlyR).imp fun r only => .two only takesL takesR
  · exact product_traces partL partR
  · exact ratio_traces partL partR
  · exact .fails _

end

lemma callsOnly_component {deriv : Expr} {pos : Nat} (known : AllowsKnown allowed)
    (only : deriv.CallsOnly allowed) : (d.component deriv pos).Ensures (CallsOnly allowed) := by
  intro r der
  obtain ⟨size, picked, -, -, chosen, rfl⟩ := component_form der
  have onlyPicked : picked.CallsOnly allowed := by
    split at chosen
    · subst chosen
      exact .ofLiteral _
    · exact .indexOf only (.ofLiteral _) chosen
  refine .call (known.type (ofName?_text_vector size .float)) fun a mem => ?_
  obtain ⟨i, -, rfl⟩ := mem_map.mp mem
  split
  · exact onlyPicked
  · exact .ofLiteral _

section Operands

variable {operands : List Operand} (parts : ∀ u ∈ operands, u.CallsOnly allowed)

include parts

lemma derivatives_traces : (derivatives operands).Ensures fun rs =>
    (∀ r ∈ rs, r.CallsOnly allowed) ∧ ∀ u ∈ operands, d.Takes u := by
  induction operands with
  | nil => exact .pure (by simp)
  | cons u us ih =>
    obtain ⟨first, rest⟩ := forall_mem_cons.mp parts
    refine .bind (first.taken d) fun du ⟨onlyDu, takes⟩ => ?_
    refine .bind (ih rest) fun rs ⟨onlyRest, takesRest⟩ => ?_
    exact .pure ⟨forall_mem_cons.mpr ⟨onlyDu, onlyRest⟩, forall_mem_cons.mpr ⟨takes, takesRest⟩⟩

lemma construction_traces (known : AllowsKnown allowed) :
    (d.construction ty operands).Ensures (DerivativeRule.Traced allowed d operands) := by
  intro r der
  rcases construction_form der with ⟨-, u, rfl, onArg⟩ | ⟨shp, -, rs, all, rfl⟩
  · exact .one ((parts u (mem_singleton_self u)).derivative r onArg) (takes_of_ok onArg)
  · have named : Ty.ofName? ty.text = some ty := by
      rcases shp with ⟨size, rfl⟩ | ⟨cols, rows, rfl⟩
      · exact ofName?_text_vector size .float
      · exact ofName?_text_matrix cols rows
    obtain ⟨only, takes⟩ := derivatives_traces (d := d) parts rs all
    exact ⟨.call (known.type named) only, takes⟩

end Operands

/-- The chain rule takes the derivative of every argument that mentions the variable, and calls the
derivative function for it. -/
lemma chainTerms_traces {tot : Option Expr} {pairs : List (String × Operand)}
    (onlyArguments : ∀ a ∈ args, a.CallsOnly allowed)
    (onlyTotal : ∀ t ∈ tot, t.CallsOnly allowed)
    (parts : ∀ pair ∈ pairs, pair.2.CallsOnly allowed)
    (own : ∀ pair ∈ pairs, d.depends pair.2.expr → allowed (derivativeName pair.1 fn)) :
    (d.chainTerms fn args tot pairs).Ensures fun res =>
      (∀ t ∈ res, t.CallsOnly allowed) ∧ ∀ pair ∈ pairs, d.Takes pair.2
        ∧ (d.depends pair.2.expr → d.catalogue.hasDerivative fn pair.1) := by
  intro res der
  induction pairs generalizing tot with
  | nil =>
    obtain rfl : tot = res := by simpa [chainTerms] using der
    exact ⟨onlyTotal, by simp⟩
  | cons pair rest ih =>
    obtain ⟨param, u⟩ := pair
    obtain ⟨part, inRest⟩ := forall_mem_cons.mp parts
    obtain ⟨allows, ownRest⟩ := forall_mem_cons.mp own
    rcases chainTerms_cons der with ⟨still, der⟩ | ⟨du, term, sum, moves, known, onArg,
      built, added, der⟩
    · obtain ⟨only, takes⟩ := ih onlyTotal inRest ownRest der
      exact ⟨only, forall_mem_cons.mpr ⟨⟨takes_of_still still, fun moves => by
        cases still.symm.trans moves⟩, takes⟩⟩
    · have onlyTerm : term.CallsOnly allowed :=
        .binaryOf (.call (allows moves) onlyArguments) (part.derivative du onArg) built
      have onlySum : ∀ t ∈ some sum, t.CallsOnly allowed := by
        rintro _ ⟨⟩
        cases tot with
        | none => exact added ▸ onlyTerm
        | some tot => exact .binaryOf (onlyTotal tot rfl) onlyTerm added
      obtain ⟨only, takes⟩ := ih onlySum inRest ownRest der
      exact ⟨only, forall_mem_cons.mpr ⟨⟨takes_of_ok onArg, fun _ => known⟩, takes⟩⟩

/-- The derivative of a call. -/
lemma call_traces (known : AllowsKnown allowed) (only : ∀ a ∈ args, a.CallsOnly allowed)
    (own : ∀ name ∈ d.ownCalls fn args, allowed name)
    (changes : takesDerivatives fn → ∀ a ∈ args, (d.derive a).Ensures (CallsOnly allowed)) :
    (d.call fn (d.deriveAll args) ty).Ensures fun r => r.CallsOnly allowed
      ∧ (∀ name ∈ d.ownCalls fn args, name ∉ d.catalogue.missing)
      ∧ (takesDerivatives fn → ∀ a ∈ args, d.Takes ⟨a, d.derive a⟩) := by
  have parts (takes : takesDerivatives fn) :
      ∀ u ∈ args.map (fun a => (⟨a, d.derive a⟩ : Operand)), u.CallsOnly allowed := by
    simpa using fun a mem => ⟨only a mem, changes takes a mem⟩
  rw [deriveAll_eq]
  unfold call
  cases type : Ty.ofName? fn with
  | some ctd =>
    have takes : takesDerivatives fn := by simp [takesDerivatives, type]
    refine (construction_traces (parts takes) known).imp fun r traced => ?_
    exact ⟨traced.callsOnly, by simp [ownCalls, type], fun _ => by simpa using traced.takes⟩
  | none =>
    cases isBi : Builtin.ofName? fn with
    | some bi =>
      have noCalls : ∀ name ∈ d.ownCalls fn args, name ∉ d.catalogue.missing := by
        simp [ownCalls, type, isBi]
      dsimp only
      split
      · next rule found =>
        cases cst : bi.isPiecewiseConstant with
        | false =>
          have takes : takesDerivatives fn := by
            simp [takesDerivatives, type, isBi, cst]
          refine (DerivativeRule.rule_traces (parts takes) known found cst).imp
            fun r traced => ⟨traced.callsOnly, noCalls, fun _ => by simpa using traced.takes⟩
        | true =>
          obtain rfl : rule = DerivativeRule.piecewiseConstant := by
            cases bi <;> first | exact (Option.some.inj found).symm | cases cst
          refine (DerivativeRule.callsOnly_piecewiseConstant known).imp fun r only => ?_
          exact ⟨only, noCalls, by simp [takesDerivatives, type, isBi, cst]⟩
      · exact .fails _
    | none =>
      have takes : takesDerivatives fn := by simp [takesDerivatives, type, isBi]
      cases regd : d.catalogue.parameters? fn with
      | none => exact .fails _
      | some params =>
        intro r der
        obtain ⟨count, total, terms, res⟩ := chain_form der
        have mem_own {name : String} : name ∈ d.ownCalls fn args ↔ ∃ pair ∈ params.zip args,
              d.depends pair.2 ∧ derivativeName pair.1 fn = name := by
          simp [ownCalls, type, isBi, regd, and_assoc]
        rw [zip_map_right] at terms
        have pairParts : ∀ pair ∈ (params.zip args).map
            (Prod.map id fun a => (⟨a, d.derive a⟩ : Operand)), pair.2.CallsOnly allowed := by
          rw [forall_mem_map]
          exact fun pair mem => parts takes _ (mem_map_of_mem (of_mem_zip mem).2)
        have pairOwn : ∀ pair ∈ (params.zip args).map
            (Prod.map id fun a => (⟨a, d.derive a⟩ : Operand)), d.depends pair.2.expr →
              allowed (derivativeName pair.1 fn) := by
          rw [forall_mem_map]
          exact fun pair mem moves => own _ (mem_own.mpr ⟨pair, mem, moves, rfl⟩)
        obtain ⟨each, taken⟩ := chainTerms_traces (by simpa using only) (by simp) pairParts pairOwn
          total terms
        simp only [forall_mem_map] at taken
        refine ⟨?_, fun name mem => ?_, fun _ a mem => ?_⟩
        · rcases res with rfl | ⟨-, der⟩
          · exact each r rfl
          · exact callsOnly_zero known r der
        · obtain ⟨pair, ins, moves, rfl⟩ := mem_own.mp mem
          simpa [Catalogue.hasDerivative] using (taken pair ins).2 moves
        · rw [length_map] at count
          rw [← map_snd_zip (Nat.le_of_eq count.symm)] at mem
          obtain ⟨pair, ins, rfl⟩ := mem_map.mp mem
          exact (taken pair ins).1

/-- A derivative calls what the expression calls, what the chain rule adds, types and built-in
functions, and of what the chain rule adds nothing is missing. -/
lemma derive_traces (known : AllowsKnown allowed) (only : e.CallsOnly allowed)
    (added : ∀ name ∈ d.chainCalls e, allowed name) :
    (d.derive e).Ensures fun r =>
      r.CallsOnly allowed ∧ ∀ name ∈ d.chainCalls e, name ∉ d.catalogue.missing := by
  induction e using Expr.induction with
  | node e ih =>
    intro r der
    rcases derive_form der with ⟨still, der⟩ | ⟨-, der⟩
    · exact ⟨callsOnly_zero known r der, by simp [chainCalls_eq_nil still]⟩
    have part {p : Expr} (mem : p ∈ e.children) (added : ∀ name ∈ d.chainCalls p, allowed name) :
        Operand.CallsOnly ⟨p, d.derive p⟩ allowed :=
      ⟨only.part mem, fun q found => (ih p mem (only.part mem) added q found).1⟩
    have avail {p : Expr} (mem : p ∈ e.children)
        (added : ∀ name ∈ d.chainCalls p, allowed name) (takes : d.Takes ⟨p, d.derive p⟩) :
        ∀ name ∈ d.chainCalls p, name ∉ d.catalogue.missing := by
      cases moves : d.depends p with
      | false => simp [chainCalls_eq_nil moves]
      | true =>
        obtain ⟨q, found⟩ := takes moves
        exact (ih p mem (only.part mem) added q found).2
    cases e with
    | literal val ty => exact ⟨callsOnly_zero known r der, by simp [chainCalls]⟩
    | ident name ty => exact ⟨.constant? known (one_eq_ok.mp der), by simp [chainCalls]⟩
    | unary op opd ty =>
      cases op with
      | negate =>
        simp only [byKind, Logged.bind_ok] at der
        obtain ⟨du, onOpd, built⟩ := der
        obtain ⟨onlyDu, free⟩ := ih opd mem_operand (only.part mem_operand) added du onOpd
        exact ⟨onlyDu.negated r built, free⟩
      | _ => cases der
    | binary op left right ty =>
      obtain ⟨addedL, addedR⟩ := forall_mem_append.mp added
      have traced := binary_traces (part mem_left addedL) (part mem_right addedR) r der
      obtain ⟨takesL, takesR⟩ := by simpa only [forall_mem_cons, not_mem_nil,
        IsEmpty.forall_iff, implies_true, and_true] using traced.takes
      exact ⟨traced.callsOnly, forall_mem_append.mpr
        ⟨avail mem_left addedL takesL, avail mem_right addedR takesR⟩⟩
    | field base name ty =>
      obtain ⟨_, _, _, db, _, _, onBase, form⟩ := field_form der
      obtain ⟨chg, free⟩ := ih base mem_base (only.part mem_base) added db onBase
      refine ⟨?_, free⟩
      rcases form with ⟨-, built⟩ | ⟨-, -, rfl⟩ | ⟨-, -, pos, -, picked⟩
      · exact .fieldOf chg built
      · exact chg
      · exact callsOnly_component known chg r picked
    | index base pos ty =>
      obtain ⟨n, db, -, -, -, onBase, form⟩ := index_form der
      obtain ⟨chg, free⟩ := ih base mem_indexed (only.part mem_indexed) added db onBase
      refine ⟨?_, free⟩
      rcases form with ⟨-, built⟩ | ⟨-, picked⟩
      · exact .indexOf chg (only.part mem_position) built
      · exact callsOnly_component known chg r picked
    | conditional cond acc rej ty =>
      rw [byKind, Logged.bind_ok] at der
      obtain ⟨_, reduced, der⟩ := der
      obtain rfl := Except.ok.inj reduced
      split at der
      · next taken =>
        rw [chainCalls, taken] at added ⊢
        exact ih acc mem_accept (only.part mem_accept) added r der
      · next taken =>
        rw [chainCalls, taken] at added ⊢
        exact ih rej mem_reject (only.part mem_reject) added r der
      · cases der
    | call fn args ty =>
      rw [chainCalls, chainCallsAll_eq] at added ⊢
      obtain ⟨own, inner⟩ := forall_mem_append.mp added
      have addedTo (takes : takesDerivatives fn) (a : Expr) (mem : a ∈ args) :
          ∀ name ∈ d.chainCalls a, allowed name := by
        intro name ins
        refine inner name ?_
        rw [if_pos takes]
        exact mem_flatMap.mpr ⟨a, mem, ins⟩
      obtain ⟨onlyR, free, taken⟩ := call_traces known (fun a mem => only.part mem) own
        (fun takes a mem => (part mem (addedTo takes a mem)).derivative) r der
      refine ⟨onlyR, forall_mem_append.mpr ⟨free, fun name mem => ?_⟩⟩
      split at mem
      · next takes =>
        obtain ⟨a, ins, mem⟩ := mem_flatMap.mp mem
        exact avail ins (addedTo takes a ins) (taken takes a ins) name mem
      · cases mem
    | assign => cases der

/-- A derivative that exists calls only derivative functions that are not missing. -/
lemma available_of_derive {r : Expr} (der : (d.derive e).outcome = .ok r) :
    ∀ name ∈ d.chainCalls e, name ∉ d.catalogue.missing := by
  have all (e : Expr) : e.CallsOnly fun _ => True := by rintro (_ | _) _ <;> trivial
  exact (derive_traces ⟨fun _ => trivial, fun _ => trivial⟩ (all e) (fun _ _ => trivial) r der).2

end Derivation

end ShaderAlgebra
