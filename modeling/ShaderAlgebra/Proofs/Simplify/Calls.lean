import ShaderAlgebra.Proofs.Simplify.Typing

/-!
# Calls in a tree

`Expr.CallsOnly` says that every function that a tree calls is allowed. Trees that are put together
from such trees by operators, selections and constructors are such trees again, if types are
allowed, and so is a simplified tree: no rule brings in a call of a function.
-/

namespace ShaderAlgebra

namespace Expr

variable {allowed : String → Prop} {e : Expr}

/-- If the root is a call, its function is allowed. -/
def CallAllowed (allowed : String → Prop) : Expr → Prop
  | .call function _ _ => allowed function
  | _ => True

/-- Every function that the tree calls is allowed. -/
def CallsOnly (allowed : String → Prop) (e : Expr) : Prop := ∀ s, Within s e → s.CallAllowed allowed

/-- Types and built-in functions are allowed. -/
structure AllowsKnown (allowed : String → Prop) : Prop where
  type : ∀ {name ty}, Ty.ofName? name = some ty → allowed name
  builtin : ∀ builtin : Builtin, allowed builtin.name

namespace CallsOnly

lemma part {part : Expr} (only : e.CallsOnly allowed) (mem : part ∈ e.children) :
    part.CallsOnly allowed :=
  fun s ins => only s (.part mem ins)

lemma ofLiteral (val : Literal) : (ofLiteral val).CallsOnly allowed := within_leaf rfl trivial

lemma unaryOf {op : UnaryOp} {opd : Expr} (only : opd.CallsOnly allowed)
    (built : unaryOf op opd = .ok e) : e.CallsOnly allowed := by
  obtain ⟨ty, -, rfl⟩ := unaryOf_eq_ok.mp built
  exact within_single rfl trivial only

lemma binaryOf {op : BinaryOp} {left right : Expr} (onlyL : left.CallsOnly allowed)
    (onlyR : right.CallsOnly allowed) (built : binaryOf op left right = .ok e) :
    e.CallsOnly allowed := by
  obtain ⟨ty, -, rfl⟩ := binaryOf_eq_ok.mp built
  exact within_pair rfl trivial onlyL onlyR

lemma conditionalOf {cond acc rej : Expr} (onlyCond : cond.CallsOnly allowed)
    (onlyAccept : acc.CallsOnly allowed) (onlyReject : rej.CallsOnly allowed)
    (built : conditionalOf cond acc rej = .ok e) : e.CallsOnly allowed := by
  obtain ⟨-, -, rfl⟩ := conditionalOf_eq_ok.mp built
  exact forall_within_iff.mpr
    ⟨trivial, by simpa [children] using ⟨onlyCond, onlyAccept, onlyReject⟩⟩

lemma fieldOf {base : Expr} {name : String} (only : base.CallsOnly allowed)
    (built : base.fieldOf name = .ok e) : e.CallsOnly allowed := by
  obtain ⟨ty, -, rfl⟩ := fieldOf_eq_ok.mp built
  exact within_single rfl trivial only

lemma indexOf {base pos : Expr} (only : base.CallsOnly allowed)
    (onlyPosition : pos.CallsOnly allowed) (built : base.indexOf pos = .ok e) :
    e.CallsOnly allowed := by
  obtain ⟨ty, -, rfl⟩ := indexOf_eq_ok.mp built
  exact within_pair rfl trivial only onlyPosition

lemma call {fn : String} {args : List Expr} {ty : Ty} (isAllowed : allowed fn)
    (only : ∀ a ∈ args, a.CallsOnly allowed) : (Expr.call fn args ty).CallsOnly allowed :=
  forall_within_iff.mpr ⟨isAllowed, only⟩

lemma constant? {ty : Ty} {val : Double} (known : AllowsKnown allowed)
    (found : constant? ty val = some e) : e.CallsOnly allowed := by
  obtain ⟨kind, ⟨-, rfl⟩ | ⟨-, named, rfl⟩⟩ := constant?_form found
  · exact ofLiteral _
  · exact call (known.type named) (by simpa using ofLiteral _)

end CallsOnly

end Expr

namespace Rules

variable {allowed : String → Prop}

/-- Simplification brings in no calls but of types. -/
lemma callsOnly_simplify (rules : Rules) (known : Expr.AllowsKnown allowed) (e : Expr) :
    e.CallsOnly allowed → (rules.simplify e).result.CallsOnly allowed := by
  intro only
  rw [simplify_result]
  refine forall_within_passes (fun {e f} own => ?_) (fun typed => ?_) rules only passLimit
  · cases e <;> exact own
  · exact ⟨fun _ => trivial, fun _ => trivial, fun _ named _ => known.type named,
      fun _ _ => trivial, fun _ _ _ => trivial⟩

end Rules

end ShaderAlgebra
