import ShaderAlgebra.Proofs.Simplify.Idempotence

/-!
# Reported changes

Simplification reports a change if a rule fired, and does not compare the tree that it ends on with
the one that it was given. So a report of no change is always right. A report of a change is right
for a run that comes to rest: a tree that such a run ends on is normal, and on a normal tree no rule
fires. A run that is cut off may have come back to where it started. It warns when it is cut off, so
without a warning the report is exact, for one expression and for all of a function or a shader.
-/

namespace ShaderAlgebra

/-- Whether the event is the warning of a run that was cut off. -/
def Event.isWarning : Event → Bool
  | .noFixedPoint .. => true
  | _ => false

/-- Whether no run was cut off. -/
def Simplified.IsQuiet {α : Type} (report : Simplified α) : Prop :=
  ∀ event ∈ report.events, event.isWarning = false

namespace Rules

variable {rules : Rules} {e : Expr}

/-- A report on an expression is right unless the passes go round in a circle. -/
lemma changed_eq_true_iff : (rules.simplify e).changed ↔ (rules.simplify e).result ≠ e
        ∨ ¬rules.IsNormal e ∧ Function.IsPeriodicPt rules.step passLimit e := by
  rw [← Bool.not_eq_false, simplify_changed_eq_false_iff, simplify_result]
  constructor
  · intro rewritten
    by_cases same : rules.step^[passLimit] e = e
    · exact .inr ⟨rewritten, same⟩
    · exact .inl same
  · rintro (differs | ⟨rewritten, -⟩)
    · exact fun normal => differs (Function.iterate_fixed normal.step_eq passLimit)
    · exact rewritten

lemma changed_iff_of_isQuiet (quiet : (rules.simplify e).IsQuiet) :
    (rules.simplify e).changed ↔ (rules.simplify e).result ≠ e := by
  refine changed_eq_true_iff.trans (or_iff_left fun ⟨rewritten, round⟩ => ?_)
  have rests := mt (noFixedPoint_mem_simplify_iff rules e).mpr fun warned =>
    absurd (quiet _ warned) (by simp [Event.isWarning])
  push Not at rests
  obtain ⟨passes, early, normal⟩ := rests
  -- The tree at rest is the one after all passes, which is where they started.
  rw [← iterate_step_of_isNormal early.le normal, round.eq] at normal
  exact rewritten normal

/-! ## Walks over larger trees -/

/-- A walk only adds to the events, and unless a run in it was cut off, it reports a change exactly
if there was one before or the tree that it gives is another. -/
structure ReportsExactly {α : Type} (walk : StateM Progress α) (a : α) : Prop where
  grows : ∀ p, p.events ⊆ (walk p).2.events
  exact : ∀ p, (∀ event ∈ (walk p).2.events, event.isWarning = false) →
    ((walk p).2.changed = true ↔ p.changed = true ∨ (walk p).1 ≠ a)

namespace ReportsExactly

variable {α β γ : Type} {a : α} {b : β} {walk : StateM Progress α} {next : StateM Progress β}

lemma pure (a : α) : ReportsExactly (Pure.pure a) a := by
  refine ⟨fun _ => List.Subset.refl _, fun p _ => ?_⟩
  show p.changed ↔ p.changed ∨ a ≠ a
  simp

lemma visit (rules : Rules) (e : Expr) : ReportsExactly (rules.visit e) e where
  grows _ := List.subset_append_left _ _
  exact p quiet := by
    have own : (rules.simplify e).IsQuiet := fun event mem =>
      quiet event (List.mem_append_right p.events mem)
    simp [Rules.visit, changed_iff_of_isQuiet own]

/-- One walk after another, where what is built from the two results shows each of them. -/
lemma seq (fst : ReportsExactly walk a) (snd : ReportsExactly next b) {f : α → β → γ}
    (shows : ∀ {x y}, f x y = f a b ↔ x = a ∧ y = b) :
    ReportsExactly (do return f (← walk) (← next)) (f a b) where
  grows p := List.Subset.trans (fst.grows p) (snd.grows (walk p).2)
  exact p quiet := by
    have before := fst.exact p fun event mem => quiet event (snd.grows _ mem)
    have after := snd.exact (walk p).2 quiet
    change (next (walk p).2).2.changed ↔ p.changed ∨ f (walk p).1 (next (walk p).2).1 ≠ f a b
    rw [after, before, Ne, Ne, Ne, shows, not_and_or, or_assoc]

lemma map (fst : ReportsExactly walk a) {f : α → γ} (shows : ∀ {x}, f x = f a ↔ x = a) :
    ReportsExactly (do return f (← walk)) (f a) where
  grows := fst.grows
  exact p quiet := by
    change (walk p).2.changed ↔ p.changed ∨ f (walk p).1 ≠ f a
    rw [fst.exact p quiet, Ne, Ne, shows]

lemma option (rules : Rules) (e : Option Expr) : ReportsExactly (e.mapM rules.visit) e := by
  cases e with
  | none => exact pure none
  | some e => exact (visit rules e).map (by simp)

mutual

lemma traverse (rules : Rules) : (s : Stmt) → ReportsExactly (s.traverse rules.visit) s
  | .declare name ty init => (option rules init).map (by simp)
  | .eval e => (visit rules e).map (by simp)
  | .ret val => (option rules val).map (by simp)
  | .branch cond acc rej => by
    have head := (visit rules cond).seq (traverseAll rules acc) (f := Prod.mk) (by simp)
    exact head.seq (traverseAll rules rej) (f := fun h r => Stmt.branch h.1 h.2 r)
      (by simp [and_assoc])
  | .loop init cond step body => by
    have head := (traverseOption rules init).seq (option rules cond) (f := Prod.mk) (by simp)
    have tail := (option rules step).seq (traverseAll rules body) (f := Prod.mk) (by simp)
    exact head.seq tail (f := fun h t => Stmt.loop h.1 h.2 t.1 t.2) (by simp [and_assoc])
  | .block body => (traverseAll rules body).map (by simp)
  | .leave | .next => pure _

lemma traverseOption (rules : Rules) :
    (s : Option Stmt) → ReportsExactly (Stmt.traverseOption rules.visit s) s
  | none => pure _
  | some s => (traverse rules s).map (by simp)

lemma traverseAll (rules : Rules) :
    (ss : List Stmt) → ReportsExactly (Stmt.traverseAll rules.visit ss) ss
  | [] => pure _
  | s :: ss => (traverse rules s).seq (traverseAll rules ss) (by simp)

end

lemma visitFunction (rules : Rules) (f : FunctionDef) : ReportsExactly (rules.visitFunction f) f :=
  (traverseAll rules f.body).map (f := fun body : List Stmt => ({ f with body := body } : FunctionDef))
    ⟨fun same => congrArg FunctionDef.body same, fun same => by rw [same]⟩

lemma visitItems (rules : Rules) (items : List Item) :
    ReportsExactly (rules.visitItems items) items := by
  induction items with
  | nil => exact pure _
  | cons item items ih =>
    refine seq ?_ ih (by simp)
    cases item with
    | struct => exact pure _
    | global g =>
      refine (option rules g.init).map (f := fun init => Item.global { g with init := init })
        ⟨fun same => ?_, fun same => by rw [same]⟩
      exact congrArg GlobalVar.init (Item.global.inj same)
    | function f => exact (visitFunction rules f).map (by simp)

lemma collect (exact : ReportsExactly walk a) (quiet : (Rules.collect walk).IsQuiet) :
    (Rules.collect walk).changed ↔ (Rules.collect walk).result ≠ a :=
  (exact.exact ⟨false, []⟩ quiet).trans (or_iff_right Bool.false_ne_true)

end ReportsExactly

/-- A change is reported exactly if the result is another tree, or if the passes came back in a
circle to one that is not normal. Where no run was cut off it is the first, also for functions and
shaders. -/
theorem simplify_changed_iff (e : Expr) (f : FunctionDef) (shader : Shader) :
    let one := simplify Rule.all e
    let body := simplifyFunction Rule.all f
    let whole := simplifyShader Rule.all shader
    (one.changed = true ↔
        one.result ≠ e ∨ ¬IsNormal Rule.all e ∧ Function.IsPeriodicPt (step Rule.all) passLimit e)
      ∧ (one.IsQuiet → (one.changed = true ↔ one.result ≠ e))
      ∧ (body.IsQuiet → (body.changed = true ↔ body.result ≠ f))
      ∧ (whole.IsQuiet → (whole.changed = true ↔ whole.result ≠ shader)) :=
  ⟨changed_eq_true_iff, changed_iff_of_isQuiet, (ReportsExactly.visitFunction _ f).collect,
    ((ReportsExactly.visitItems _ shader.items).map (f := Shader.mk) (by simp)).collect⟩

/-- The report on `true ? x : y` is that of a change, without a warning. -/
theorem simplify_changed_iff_chosen :
    let x := Expr.ident "x" Ty.float
    let e := Expr.conditional (.ofBool true) x (.ident "y" Ty.float) Ty.float
    (simplify Rule.all e).changed = true ∧ (simplify Rule.all e).result = x := by
  intro x e
  have quiet : (simplify Rule.all e).IsQuiet := by unfold Simplified.IsQuiet; decide +kernel
  have rewritten : (simplify Rule.all e).result = x := by rfl
  have exact := (simplify_changed_iff e ⟨"f", [], .void, []⟩ ⟨[]⟩).2.1 quiet
  exact ⟨exact.mpr (by rw [rewritten]; nofun), rewritten⟩

/-- Sixty-four passes over `65536 * 65536 * 65536` come back to it, and report a change. -/
theorem simplify_changed_round :
    let e := product 65536 65536 65536
    (simplify Rule.all e).changed = true ∧ (simplify Rule.all e).result = e := by
  intro e
  have large : Overflow 65536 65536 := ⟨by decide, by decide, by decide⟩
  refine ⟨?_, simplify_product large large large⟩
  rw [← Bool.not_eq_false, simplify_changed_eq_false_iff]
  intro normal
  have turns : turned 65536 65536 65536 = product 65536 65536 65536 :=
    (step_product large large).symm.trans normal.step_eq
  simp [turned, product, times, Expr.ofInt, Expr.ofLiteral] at turns

end Rules

end ShaderAlgebra
