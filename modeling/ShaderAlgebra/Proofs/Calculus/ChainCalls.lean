import ShaderAlgebra.Proofs.Calculus.Forms

/-!
# Calls that the chain rule makes

`Derivation.chainCalls` lists the derivative functions that the chain rule calls when an expression
is differentiated. It reads only which functions the catalogue knows, not which derivatives it
lacks, and differentiation depends on the latter through this list alone (`derive_congr`).
-/

namespace ShaderAlgebra

open List ShaderAlgebra.Expr

/-- Whether the function is constant between its jumps, so that its derivative is zero without the
derivatives of the arguments. -/
def Builtin.isPiecewiseConstant : Builtin → Bool
  | .sign | .floor | .ceil | .round | .trunc | .step => true
  | _ => false

namespace Derivation

/-- Whether the derivative of a call is made of the derivatives of the arguments. -/
def takesDerivatives (function : String) : Bool :=
  match Ty.ofName? function, Builtin.ofName? function with
  | none, some builtin => !builtin.isPiecewiseConstant
  | _, _ => true

/-- The derivative functions that the chain rule calls for one call of a function: one for each
argument that mentions the variable. -/
def ownCalls (d : Derivation) (function : String) (arguments : List Expr) : List String :=
  match Ty.ofName? function, Builtin.ofName? function, d.catalogue.parameters? function with
  | none, none, some parameters =>
    ((parameters.zip arguments).filter fun pair => d.depends pair.2).map fun pair =>
      derivativeName pair.1 function
  | _, _, _ => []

mutual

/-- The derivative functions that the chain rule calls in the derivative of an expression. -/
def chainCalls (d : Derivation) : Expr → List String
  | .literal .. | .ident .. | .assign .. => []
  | .unary _ operand _ => chainCalls d operand
  | .binary _ left right _ => chainCalls d left ++ chainCalls d right
  | .field base _ _ | .index base _ _ => chainCalls d base
  | .conditional condition accept reject _ =>
    match (Rules.simplify Rule.all condition).result.literal? with
    | some (.bool true) => chainCalls d accept
    | some (.bool false) => chainCalls d reject
    | _ => []
  | .call function arguments _ =>
    d.ownCalls function arguments
      ++ if takesDerivatives function then chainCallsAll d arguments else []

def chainCallsAll (d : Derivation) : List Expr → List String
  | [] => []
  | e :: es => chainCalls d e ++ chainCallsAll d es

end

variable {d : Derivation} {e : Expr}

lemma chainCallsAll_eq (d : Derivation) (es : List Expr) :
    d.chainCallsAll es = es.flatMap d.chainCalls :=
  walk_eq_flatMap _ rfl (fun _ _ => rfl) es

/-- A part that does not mention the variable has no such calls. -/
lemma depends_part {part : Expr} (indep : d.depends e = false) (mem : part ∈ e.children) :
    d.depends part = false := by
  cases moves : d.depends part with
  | false => rfl
  | true => exact (mentions_of_part mem moves).symm.trans indep

lemma chainCalls_eq_nil (indep : d.depends e = false) : d.chainCalls e = [] := by
  induction e using Expr.induction with
  | node e ih =>
    have parts : ∀ part ∈ e.children, d.chainCalls part = [] :=
      fun part mem => ih part mem (depends_part indep mem)
    cases e with
    | literal | ident | assign => rfl
    | unary op opd ty => exact parts opd mem_operand
    | binary op left right ty =>
      rw [chainCalls, parts left mem_left, parts right mem_right]
      rfl
    | field base name ty => exact parts base mem_base
    | index base pos ty => exact parts base mem_indexed
    | conditional cond acc rej ty =>
      rw [chainCalls]
      split
      · exact parts acc mem_accept
      · exact parts rej mem_reject
      · rfl
    | call fn args ty =>
      have noArgument : ∀ a ∈ args, d.depends a = false :=
        fun a mem => depends_part (e := .call fn args ty) indep mem
      have own : d.ownCalls fn args = [] := by
        unfold ownCalls
        split
        · next ps _ _ _ =>
          rw [map_eq_nil_iff, filter_eq_nil_iff]
          intro pair mem
          simp [noArgument pair.2 (of_mem_zip mem).2]
        · rfl
      have all : args.flatMap d.chainCalls = [] := flatMap_eq_nil_iff.mpr parts
      rw [chainCalls, own, chainCallsAll_eq, all]
      simp

/-- The calls are of derivatives of functions that the catalogue knows. -/
lemma registered_of_mem_chainCalls {name : String} (mem : name ∈ d.chainCalls e) :
    ∃ fn ps param, d.catalogue.parameters? fn = some ps
      ∧ param ∈ ps ∧ name = derivativeName param fn := by
  induction e using Expr.induction with
  | node e ih =>
    cases e with
    | literal | ident | assign => cases mem
    | unary op opd ty => exact ih opd mem_operand mem
    | binary op left right ty =>
      rcases mem_append.mp mem with mem | mem
      · exact ih left mem_left mem
      · exact ih right mem_right mem
    | field base name ty => exact ih base mem_base mem
    | index base pos ty => exact ih base mem_indexed mem
    | conditional cond acc rej ty =>
      rw [chainCalls] at mem
      split at mem
      · exact ih acc mem_accept mem
      · exact ih rej mem_reject mem
      · cases mem
    | call fn args ty =>
      rw [chainCalls, chainCallsAll_eq] at mem
      rcases mem_append.mp mem with mem | mem
      · unfold ownCalls at mem
        split at mem
        · next ps _ _ known =>
          obtain ⟨⟨param, a⟩, ins, rfl⟩ := mem_map.mp mem
          have zipped := (mem_filter.mp ins).1
          exact ⟨fn, ps, param, known, (of_mem_zip zipped).1, rfl⟩
        · cases mem
      · split at mem
        · obtain ⟨a, ins, mem⟩ := mem_flatMap.mp mem
          exact ih a ins mem
        · cases mem

/-! ## Missing derivatives -/

lemma simplified_bind_congr {f g : Expr → Derived Expr}
    (same : f (Rules.simplify Rule.all e).result = g (Rules.simplify Rule.all e).result) :
    (e.simplified >>= f) = (e.simplified >>= g) := by
  show Logged.bind _ _ = Logged.bind _ _
  simp only [Logged.bind, Expr.simplified, same]

section Catalogue

variable {cat : Catalogue}

lemma rule_congr {bi : Builtin} {rule : DerivativeRule} (found : DerivativeRule.of? bi = some rule)
    (opds : List Operand) : rule d opds = rule { d with catalogue := cat } opds := by
  -- A rule looks at the number of its arguments first.
  rcases opds with _ | ⟨fst, _ | ⟨snd, _ | ⟨third, _ | ⟨fourth, rest⟩⟩⟩⟩ <;>
    cases bi <;> cases found <;> rfl

/-- The rule of a function that is constant between its jumps does not look at derivatives. -/
lemma piecewiseConstant_congr (f g : Expr → Derived Expr) (args : List Expr) :
    DerivativeRule.piecewiseConstant d (args.map fun a => ⟨a, f a⟩)
      = DerivativeRule.piecewiseConstant d (args.map fun a => ⟨a, g a⟩) := by
  simp only [DerivativeRule.piecewiseConstant, getLast?_map]
  cases args.getLast? <;> rfl

lemma chainTerms_congr {fn : String} {args : List Expr}
    {pairs : List (String × Operand)} (tot : Option Expr)
    (avail : ∀ pair ∈ pairs, d.depends pair.2.expr →
      cat.hasDerivative fn pair.1 = d.catalogue.hasDerivative fn pair.1) :
    d.chainTerms fn args tot pairs
      = Derivation.chainTerms { d with catalogue := cat } fn args tot pairs := by
  induction pairs generalizing tot with
  | nil => rfl
  | cons pair rest ih =>
    obtain ⟨param, u⟩ := pair
    have inRest (tot : Option Expr) := ih tot fun oth mem => avail oth (mem_cons_of_mem _ mem)
    have same : Derivation.depends { d with catalogue := cat } u.expr = d.depends u.expr := rfl
    rw [chainTerms, chainTerms, same]
    cases moves : d.depends u.expr with
    | false => exact inRest tot
    | true =>
      rw [avail (param, u) mem_cons_self moves]
      simp only [inRest]

variable (known : cat.parameters? = d.catalogue.parameters?)
include known

/-- The derivative of a call, if the same calls of the chain rule are available and the derivatives
that it takes are the same. -/
lemma call_congr {fn : String} {args : List Expr} {ty : Ty} (avail : ∀ name ∈ d.ownCalls fn args,
      name ∈ cat.missing ↔ name ∈ d.catalogue.missing)
    (same : takesDerivatives fn →
      ∀ a ∈ args, d.derive a = Derivation.derive { d with catalogue := cat } a) :
    d.call fn (d.deriveAll args) ty = Derivation.call { d with catalogue := cat } fn
        (Derivation.deriveAll { d with catalogue := cat } args) ty := by
  have opds (takes : takesDerivatives fn) :
      d.deriveAll args = Derivation.deriveAll { d with catalogue := cat } args := by
    rw [deriveAll_eq, deriveAll_eq]
    exact map_congr_left fun a mem => by rw [same takes a mem]
  unfold call
  cases type : Ty.ofName? fn with
  | some ctd =>
    rw [opds (by simp [takesDerivatives, type])]
    rfl
  | none =>
    cases isBi : Builtin.ofName? fn with
    | some bi =>
      dsimp only
      cases found : DerivativeRule.of? bi with
      | none => rfl
      | some rule =>
        cases cst : bi.isPiecewiseConstant with
        | false =>
          rw [opds (by simp [takesDerivatives, type, isBi, cst])]
          exact rule_congr found _
        | true =>
          obtain rfl : rule = DerivativeRule.piecewiseConstant := by
            cases bi <;> first | exact (Option.some.inj found).symm | cases cst
          rw [deriveAll_eq, deriveAll_eq]
          exact piecewiseConstant_congr _ _ _
    | none =>
      rw [known]
      cases regd : d.catalogue.parameters? fn with
      | none => rfl
      | some ps =>
        dsimp only
        rw [opds (by simp [takesDerivatives, type, isBi]), chain, chain, chainTerms_congr]
        · rfl
        · intro pair mem moves
          rw [Catalogue.hasDerivative, Catalogue.hasDerivative, Bool.eq_iff_iff]
          simp only [Bool.not_eq_true', contains_eq_mem, decide_eq_false_iff_not]
          refine not_congr (avail _ ?_)
          simp only [ownCalls, type, isBi, regd, mem_map, mem_filter]
          rw [deriveAll_eq, zip_map_right] at mem
          obtain ⟨⟨param, a⟩, ins, rfl⟩ := mem_map.mp mem
          exact ⟨(param, a), ⟨ins, moves⟩, rfl⟩

/-- Which of the calls are available is all that differentiation reads of the missing
derivatives. -/
lemma derive_congr (avail : ∀ name ∈ d.chainCalls e,
      name ∈ cat.missing ↔ name ∈ d.catalogue.missing) :
    d.derive e = Derivation.derive { d with catalogue := cat } e := by
  induction e using Expr.induction with
  | node e ih =>
    have byKinds : d.byKind e = Derivation.byKind { d with catalogue := cat } e := by
      cases e with
      | literal | ident | assign => rfl
      | unary op opd ty =>
        cases op with
        | negate =>
          have same := ih opd mem_operand avail
          rw [byKind, byKind, same]
        | _ => rfl
      | binary op left right ty =>
        have sameL := ih left mem_left fun name mem => avail name (mem_append_left _ mem)
        have sameR := ih right mem_right fun name mem => avail name (mem_append_right _ mem)
        rw [byKind, byKind, sameL, sameR]
        cases op <;> rfl
      | field base name ty =>
        have same := ih base mem_base avail
        rw [byKind, byKind, same]
        rfl
      | index base pos ty =>
        have same := ih base mem_indexed avail
        rw [byKind, byKind, same]
        rfl
      | conditional cond acc rej ty =>
        rw [chainCalls] at avail
        refine simplified_bind_congr ?_
        split
        · next taken =>
          rw [taken] at avail
          exact ih acc mem_accept avail
        · next taken =>
          rw [taken] at avail
          exact ih rej mem_reject avail
        · rfl
      | call fn args ty =>
        rw [chainCalls, chainCallsAll_eq] at avail
        refine call_congr known (fun name mem => avail name (mem_append_left _ mem)) ?_
        intro takes a mem
        refine ih a mem fun name ins => avail name (mem_append_right _ ?_)
        rw [if_pos takes]
        exact mem_flatMap.mpr ⟨a, mem, ins⟩
    rw [derive_eq, derive_eq, byKinds]
    rfl

end Catalogue

end Derivation

end ShaderAlgebra
