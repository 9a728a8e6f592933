import Mathlib.Data.List.Forall2
import Mathlib.Tactic.Lemma
import ShaderAlgebra.Logged

/-!
# Successful outcomes

What it takes for a sequence of checks to succeed: every check in it does. These lemmas open a
computation from the front, so that proofs never unfold the monad.
-/

namespace ShaderAlgebra

variable {ε ε' α β : Type} {fst : Except ε α} {res : α}

lemma bind_eq_ok {next : α → Except ε β} {res : β} :
    (fst >>= next) = .ok res ↔ ∃ mid, fst = .ok mid ∧ next mid = .ok res := by
  cases fst <;> simp [bind, Except.bind]

lemma pure_eq_ok {given : α} : (pure given : Except ε α) = .ok res ↔ given = res := by
  simp [pure, Except.pure]

lemma map_eq_ok {chg : α → β} {res : β} :
    fst.map chg = .ok res ↔ ∃ mid, fst = .ok mid ∧ chg mid = res := by
  cases fst <;> simp [Except.map]

lemma map_of_bind (fst : Except ε α) (next : α → Except ε β) {γ : Type} (chg : β → γ) :
    (fst >>= next).map chg = fst >>= fun mid => (next mid).map chg := by
  cases fst <;> rfl

/-- Changing the error of a check does not change when it succeeds. -/
lemma mapError_eq_ok {chg : ε → ε'} : fst.mapError chg = .ok res ↔ fst = .ok res := by
  cases fst with
  | ok given =>
    have kept : (Except.ok given : Except ε α).mapError chg = .ok given := rfl
    simp [kept]
  | error error =>
    have failed : (Except.error error : Except ε α).mapError chg = .error (chg error) := rfl
    simp [failed]

lemma Logged.bind_ok {fst : Logged ε α} {next : α → Logged ε β} {res : β} :
    (fst >>= next).outcome = .ok res ↔
      ∃ mid, fst.outcome = .ok mid ∧ (next mid).outcome = .ok res := by
  rw [outcome_bind, bind_eq_ok]

lemma toOption_eq_some : fst.toOption = some res ↔ fst = .ok res := by
  cases fst <;> simp [Except.toOption]

lemma exists_ok_of_map {f : α → β} {b : β} (mapped : fst.toOption.map f = some b) :
    ∃ a, fst = .ok a ∧ f a = b := by
  cases fst <;> simp_all [Except.toOption]

/-! ## Lists -/

/-- A walk that checks the members of a list in turn succeeds if every check does. -/
lemma eq_ok_iff_forall₂ {check : α → Except ε β} (walk : List α → Except ε (List β))
    (nil : walk [] = .ok []) (cons : ∀ x xs, walk (x :: xs) = do return (← check x) :: (← walk xs))
    {xs : List α} {ys : List β} :
    walk xs = .ok ys ↔ List.Forall₂ (fun x y => check x = .ok y) xs ys := by
  induction xs generalizing ys with
  | nil => simp [nil, eq_comm]
  | cons x xs ih =>
    simp only [cons, bind_eq_ok, pure_eq_ok, ih]
    constructor
    · rintro ⟨y, fst, ys, rest, rfl⟩
      exact .cons fst rest
    · rintro (_ | ⟨fst, rest⟩)
      exact ⟨_, fst, _, rest, rfl⟩

/-- Reading the members of a list where each can be read. -/
lemma mapM_eq_some_map {read : α → Option β} {view : α → β} {xs : List α}
    (reads : ∀ x ∈ xs, read x = some (view x)) : xs.mapM read = some (xs.map view) := by
  induction xs with
  | nil => rfl
  | cons x xs ih =>
    have rest := ih fun y mem => reads y (List.mem_cons_of_mem _ mem)
    simp [reads x List.mem_cons_self, rest]

/-- Reading back a list that was written one by one. -/
lemma mapM_map_eq_some {read : β → Option α} {write : α → β} (reads : ∀ x, read (write x) = some x)
    (xs : List α) : (xs.map write).mapM read = some xs := by
  have each : xs.mapM (read ∘ write) = some (xs.map id) := mapM_eq_some_map fun x _ => reads x
  rw [List.mapM_map, each, List.map_id]

end ShaderAlgebra
