import ShaderAlgebra.Proofs.Simplify.Passes
import ShaderAlgebra.Proofs.Typing.Annotated

/-!
# Long sums

Simplification nests a sum of variables to the left. A pass goes from the leaves up and looks at
each node once, so of a sum that is nested to the right it moves one variable (`step_sum`). A sum of
two variables is nested either way, and every other variable takes a pass of its own. So the passes
come to rest on every such sum, but only on those of up to `passLimit + 2` variables within the
limit (`idempotentAt_rightSum_iff`).
-/

namespace ShaderAlgebra.Rules

open List

variable {x last : String} {names : List String}

/-! ## Sums of variables -/

/-- A variable of type `float`. -/
def term (name : String) : Expr := .ident name Ty.float

/-- The sum of two `float` expressions. -/
def plus (left right : Expr) : Expr := .binary .add left right Ty.float

/-- A sum of variables, nested to the right. -/
def rightSum : (first : String) → (rest : List String) → Expr
  | x, [] => term x
  | x, y :: rest => plus (term x) (rightSum y rest)

/-- A sum with variables added to it one by one. -/
def leftSum (sum : Expr) (names : List String) : Expr :=
  names.foldl (fun left name => plus left (term name)) sum

/-- A variable or the sum of two trees. -/
inductive IsSum : Expr → Prop
  | term (name : String) : IsSum (term name)
  | plus (left right : Expr) : IsSum (plus left right)

lemma isSum_rightSum (x : String) (names : List String) : IsSum (rightSum x names) := by
  cases names with
  | nil => exact .term x
  | cons y rest => exact .plus _ _

lemma IsSum.ty_eq {e : Expr} (sum : IsSum e) : e.ty = Ty.float := by
  cases sum <;> rfl

/-- A sum of variables of type `float` is accepted as it is. -/
lemma infer_rightSum {site : Site}
    (floats : ∀ name ∈ x :: names, site.symbols.lookup name = some Ty.float) :
    (rightSum x names).infer site = .ok (rightSum x names) := by
  have leaf (y : String) (mem : y ∈ x :: names) : (term y).infer site = .ok (term y) :=
    Expr.infer_self (by simp [term, Expr.children]) (floats y mem)
  induction names generalizing x with
  | nil => exact leaf x mem_cons_self
  | cons y rest ih =>
    have tail : (rightSum y rest).infer site = .ok (rightSum y rest) :=
      ih (fun name mem => floats name (mem_cons_of_mem _ mem))
        fun name mem => leaf name (mem_cons_of_mem _ mem)
    refine Expr.infer_self (fun part mem => ?_) ?_
    · rcases mem_pair.mp mem with rfl | rfl
      · exact leaf x mem_cons_self
      · exact tail
    · change Ty.binary? .add Ty.float (rightSum y rest).ty = some Ty.float
      rw [(isSum_rightSum y rest).ty_eq]
      rfl

/-! ## Rules at a sum -/

/-- No rule changes a sum whose last operand is a variable, unless it is a variable doubled. -/
lemma settle_plus_term {left : Expr} (sum : IsSum left) {name : String}
    (differs : left ≠ term name) :
    (settle Rule.all (plus left (term name))).1 = plus left (term name) := by
  cases sum with
  | term oth =>
    have otherName : oth ≠ name := fun same => differs (by rw [same])
    have nodup : (Expr.ident oth Ty.float).agrees (.ident name Ty.float) = false := by
      simp [Expr.agrees, otherName]
    have collected : (plus (term oth) (term name)).collected? = none := by
      simp [plus, term, Expr.collected?, Expr.splitTerm, nodup]
    simp only [settle, Rule.all, Rule.apply, Rule.candidate?, collected]
    rfl
  | plus a b => rfl

/-- A sum in the second operand of a sum is taken apart. -/
lemma settle_plus_plus (x name : String) {mid : Expr} (sum : IsSum mid) :
    (settle Rule.all (plus (term x) (plus mid (term name)))).1
      = plus (plus (term x) mid) (term name) := by
  cases sum with
  | term oth | plus a b => rfl

/-! ## Passes over a sum -/

lemma step_plus (left right : Expr) : step Rule.all (plus left right)
      = (settle Rule.all (plus (step Rule.all left) (step Rule.all right))).1 :=
  step_eq Rule.all (plus left right)

lemma step_term (name : String) : step Rule.all (term name) = term name := rfl

/-- A pass moves the last variable of a sum that is nested to the right out of it. -/
lemma step_rightSum (nbrs : List.IsChain (· ≠ ·) (x :: (names ++ [last]))) :
    step Rule.all (rightSum x (names ++ [last])) = plus (rightSum x names) (term last) := by
  induction names generalizing x with
  | nil =>
    have nodup : term x ≠ term last := by simpa [term] using nbrs
    exact settle_plus_term (.term x) nodup
  | cons y names ih =>
    have inner := ih nbrs.tail
    rw [cons_append, rightSum, step_plus, step_term, inner]
    exact settle_plus_plus x last (isSum_rightSum y names)

/-- What stands to the right of a sum does not keep the sum from its step. -/
lemma step_leftSum {sum left right : Expr} (stepped : step Rule.all sum = plus left right)
    (names : List String) :
    step Rule.all (leftSum sum names) = leftSum (plus left right) names := by
  induction names generalizing sum left right with
  | nil => exact stepped
  | cons name names ih =>
    refine ih ?_
    rw [step_plus, stepped, step_term]
    exact settle_plus_term (.plus left right) nofun

/-- A pass moves one variable from the part that is nested to the right to the other. -/
lemma step_sum (nbrs : List.IsChain (· ≠ ·) (x :: (names ++ [last]))) (more : List String) :
    step Rule.all (leftSum (rightSum x (names ++ [last])) more)
      = leftSum (rightSum x names) (last :: more) :=
  step_leftSum (step_rightSum nbrs) more

/-- As many passes as there are variables to move. -/
lemma iterate_step_sum {kept moved : List String}
    (nbrs : List.IsChain (· ≠ ·) (x :: (kept ++ moved))) (more : List String) :
    (step Rule.all)^[moved.length] (leftSum (rightSum x (kept ++ moved)) more)
      = leftSum (rightSum x kept) (moved ++ more) := by
  induction moved using List.reverseRecOn generalizing more with
  | nil => simp
  | append_singleton moved last ih =>
    rw [length_append, length_singleton, Function.iterate_succ_apply,
      ← append_assoc, step_sum (by simpa using nbrs)]
    have front : List.IsChain (· ≠ ·) (x :: (kept ++ moved)) := by
      rw [← append_assoc, ← cons_append] at nbrs
      exact nbrs.left_of_append
    rw [ih front, append_assoc]
    rfl

lemma iterate_step_rightSum {kept moved : List String}
    (nbrs : List.IsChain (· ≠ ·) (x :: (kept ++ moved))) :
    (step Rule.all)^[moved.length] (rightSum x (kept ++ moved))
      = leftSum (rightSum x kept) moved := by
  have moves := iterate_step_sum nbrs []
  rwa [append_nil] at moves

/-! ## When the passes are at rest -/

lemma leftSum_injective {sum sum' : Expr} (same : leftSum sum names = leftSum sum' names) :
    sum = sum' := by
  induction names generalizing sum sum' with
  | nil => exact same
  | cons name names ih => exact (Expr.binary.inj (ih same)).2.1

/-- A sum that is nested to the left stays as it is. -/
lemma step_leftSum_term (nbrs : List.IsChain (· ≠ ·) (x :: names)) :
    step Rule.all (leftSum (term x) names) = leftSum (term x) names := by
  cases names with
  | nil => rfl
  | cons y rest =>
    -- A sum of two variables is nested both ways.
    have pair : List.IsChain (· ≠ ·) (x :: ([] ++ [y])) := by
      rw [isChain_cons_cons] at nbrs
      simpa using nbrs.1
    exact step_sum pair rest

/-- A sum of three variables or more that is nested to the right does not. -/
lemma step_sum_ne {y : String} {more : List String}
    (nbrs : List.IsChain (· ≠ ·) (x :: (y :: names ++ [last]))) :
    step Rule.all (leftSum (rightSum x (y :: names ++ [last])) more)
      ≠ leftSum (rightSum x (y :: names ++ [last])) more := by
  rw [step_sum nbrs]
  intro same
  have inner : plus (rightSum x (y :: names)) (term last) = rightSum x (y :: names ++ [last]) :=
    leftSum_injective same
  cases (Expr.binary.inj inner).2.1

/-- A sum of up to `passLimit + 2` variables is nested to the left within the limit. -/
lemma simplify_rightSum (nbrs : List.IsChain (· ≠ ·) (x :: names))
    (short : names.length ≤ passLimit + 1) :
    (simplify Rule.all (rightSum x names)).result = leftSum (term x) names := by
  rw [simplify_result]
  cases names with
  | nil => exact Function.iterate_fixed (step_term x) passLimit
  | cons y moved =>
    have enough : moved.length ≤ passLimit := Nat.le_of_succ_le_succ short
    obtain ⟨extra, split⟩ := Nat.exists_eq_add_of_le' enough
    have moves : (step Rule.all)^[moved.length] (rightSum x ([y] ++ moved))
        = leftSum (rightSum x [y]) moved := iterate_step_rightSum nbrs
    rw [split, Function.iterate_add_apply]
    refine (congrArg _ moves).trans ?_
    exact Function.iterate_fixed (step_leftSum_term nbrs) extra

/-- A list with more than two names besides those that are moved within the limit. -/
lemma exists_split_of_length_lt (long : passLimit + 2 < names.length + 1) :
    ∃ y front last moved, names = y :: front ++ [last] ++ moved ∧ moved.length = passLimit := by
  have split := take_append_drop (names.length - passLimit) names
  have size : 2 ≤ (names.take (names.length - passLimit)).length := by
    rw [length_take]
    omega
  generalize names.take (names.length - passLimit) = kept at split size
  obtain ⟨y, z, rest, rfl⟩ : ∃ y z rest, kept = y :: z :: rest := by
    match kept, size with
    | y :: z :: rest, _ => exact ⟨y, z, rest, rfl⟩
  refine ⟨y, (z :: rest).dropLast, (z :: rest).getLast (cons_ne_nil z rest),
    names.drop (names.length - passLimit), ?_, ?_⟩
  · rw [cons_append, dropLast_append_getLast]
    exact split.symm
  · rw [length_drop]
    omega

/-- Simplifying a sum of variables that is nested to the right is idempotent exactly up to
`passLimit + 2` variables. -/
lemma idempotentAt_rightSum_iff (nbrs : List.IsChain (· ≠ ·) (x :: names)) :
    IdempotentAt Rule.all (rightSum x names) ↔ (x :: names).length ≤ passLimit + 2 := by
  have moves : (step Rule.all)^[names.length] (rightSum x ([] ++ names))
      = leftSum (rightSum x []) names := iterate_step_rightSum nbrs
  have rests : step Rule.all ((step Rule.all)^[names.length] (rightSum x names))
      = (step Rule.all)^[names.length] (rightSum x names) := by
    rw [nil_append] at moves
    rw [moves]
    exact step_leftSum_term nbrs
  rw [idempotentAt_iff_of_rests rests]
  constructor
  · intro fixed
    by_contra long
    rw [length_cons, Nat.not_le] at long
    obtain ⟨y, front, last, moved, rfl, full⟩ := exists_split_of_length_lt long
    rw [simplify_result, ← full, iterate_step_rightSum nbrs] at fixed
    exact step_sum_ne nbrs.left_of_append fixed
  · intro short
    have short : names.length ≤ passLimit + 1 := Nat.le_of_succ_le_succ short
    rw [simplify_rightSum nbrs short, step_leftSum_term nbrs]

end ShaderAlgebra.Rules
