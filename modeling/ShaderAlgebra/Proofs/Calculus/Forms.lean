import ShaderAlgebra.Calculus.Derivative
import ShaderAlgebra.Proofs.Typing.Annotated

/-!
# The forms of a derivative

A derivative that exists has one of a few forms, which depend on the root and on which parts mention
the variable. The lemmas here say which, for each kind of root, in terms of the nodes that were
built and of the derivatives of the parts. Proofs about derivatives go by these forms and leave the
computation alone.
-/

namespace ShaderAlgebra

open Logged

/-! ## Openers -/

namespace Derived

variable {α : Type} {e left right : Expr} {terms : List Expr} {built : Except NodeError Expr}

@[simp] lemma outcome_throw (error : DiffError) :
    (throw error : Derived α).outcome = .error error := rfl

@[simp] lemma outcome_unsupported (what : Unsupported) :
    (unsupported what : Derived α).outcome = .error (.unsupported what) := rfl

lemma node_eq_ok : (node built).outcome = .ok e ↔ built = .ok e := mapError_eq_ok

lemma negate_eq_ok {opd : Expr} : (negate opd).outcome = .ok e ↔ Expr.unaryOf .negate opd = .ok e :=
  node_eq_ok

lemma add_eq_ok : (add left right).outcome = .ok e ↔ Expr.binaryOf .add left right = .ok e :=
  node_eq_ok

lemma subtract_eq_ok :
    (subtract left right).outcome = .ok e ↔ Expr.binaryOf .subtract left right = .ok e :=
  node_eq_ok

lemma multiply_eq_ok :
    (multiply left right).outcome = .ok e ↔ Expr.binaryOf .multiply left right = .ok e :=
  node_eq_ok

lemma divide_eq_ok :
    (divide left right).outcome = .ok e ↔ Expr.binaryOf .divide left right = .ok e :=
  node_eq_ok

/-- A term is there exactly if it is wanted. -/
lemma termIf_eq_ok {wanted : Bool} {term : Derived Expr} :
    (termIf wanted term).outcome = .ok terms ↔
      if wanted then ∃ t, term.outcome = .ok t ∧ terms = [t] else terms = [] := by
  unfold termIf
  cases wanted with
  | false => simp [eq_comm]
  | true =>
    rw [if_pos rfl, if_pos rfl, bind_ok]
    exact exists_congr fun t => and_congr_right fun _ => by simp [eq_comm]

/-! ## Results -/

/-- Every result of the computation has the property. -/
def Ensures (m : Derived α) (P : α → Prop) : Prop := ∀ a, m.outcome = .ok a → P a

namespace Ensures

variable {β : Type} {m : Derived α} {next : α → Derived β} {P : α → Prop} {Q : β → Prop}

lemma bind (fst : m.Ensures P) (rest : ∀ a, P a → (next a).Ensures Q) : (m >>= next).Ensures Q := by
  intro b found
  rw [bind_ok] at found
  obtain ⟨a, is1, isRest⟩ := found
  exact rest a (fst a is1) b isRest

lemma pure {a : α} (holds : P a) : (Pure.pure a : Derived α).Ensures P := by
  rintro _ ⟨⟩
  exact holds

lemma fails (error : DiffError) : (throw error : Derived α).Ensures P := nofun

/-- A computation that starts by ruling out a case. -/
lemma guarded {c : Prop} [Decidable c] {error : DiffError} (holds : ¬c → m.Ensures P) :
    (if c then throw error >>= fun _ : PUnit => m else m).Ensures P := by
  split
  · nofun
  · next oth => exact holds oth

lemma imp {P' : α → Prop} (ensures : m.Ensures P) (implies : ∀ a, P a → P' a) : m.Ensures P' :=
  fun a found => implies a (ensures a found)

lemma mapError (ensures : m.Ensures P) (chg : DiffError → DiffError) : Ensures (m.mapError chg) P :=
  fun a found => ensures a (mapError_eq_ok.mp found)

variable {P : Expr → Prop}

lemma node (holds : ∀ e, built = .ok e → P e) : (node built).Ensures P :=
  fun e found => holds e (node_eq_ok.mp found)

lemma termIf {wanted : Bool} {term : Derived Expr} (ensures : term.Ensures P) :
    (termIf wanted term).Ensures fun terms =>
      (∀ t ∈ terms, P t) ∧ (wanted → ∃ t, P t) := by
  intro terms found
  rw [termIf_eq_ok] at found
  cases wanted with
  | false =>
    obtain rfl : terms = [] := by simpa using found
    simp
  | true =>
    obtain ⟨t, der, rfl⟩ : ∃ t, term.outcome = .ok t ∧ terms = [t] := by simpa using found
    have holds := ensures t der
    exact ⟨by simpa using holds, fun _ => ⟨t, holds⟩⟩

end Ensures

/-- What adding up keeps holds of a sum. -/
lemma addTerms_keeps {P : Expr → Prop}
    (keeps : ∀ {a b s}, P a → P b → Expr.binaryOf .add a b = .ok s → P s) {tot : Expr}
    (holds : P tot) (rest : ∀ term ∈ terms, P term)
    (added : (addTerms tot terms).outcome = .ok e) : P e := by
  induction terms generalizing tot with
  | nil =>
    obtain rfl : tot = e := by simpa [addTerms] using added
    exact holds
  | cons term terms ih =>
    simp only [addTerms, bind_ok, add_eq_ok] at added
    obtain ⟨sum, built, added⟩ := added
    exact ih (keeps holds (rest term List.mem_cons_self) built)
      (fun oth mem => rest oth (List.mem_cons_of_mem _ mem)) added

end Derived

namespace Derivation

open Derived

variable {d : Derivation} {r : Expr} {opds : List Operand}

lemma zero_eq_ok {val : Ty} : (d.zero val).outcome = .ok r ↔
      ∃ ty, val.derivative? d.ty = some ty ∧ Expr.zero? ty = some r := by
  unfold zero
  cases val.derivative? d.ty with
  | none => simp
  | some ty => cases found : Expr.zero? ty <;> simp [found]

lemma one_eq_ok : d.one.outcome = .ok r ↔ Expr.one? d.ty = some r := by
  unfold one
  cases Expr.one? d.ty <;> simp

/-- What adding up keeps holds of a sum that has terms. -/
lemma sum_keeps {P : Expr → Prop} {terms : List Expr} {val : Ty}
    (keeps : ∀ {a b s}, P a → P b → Expr.binaryOf .add a b = .ok s → P s)
    (each : ∀ term ∈ terms, P term) (summed : (d.sum terms val).outcome = .ok r) :
    P r ∨ (d.zero val).outcome = .ok r := by
  cases terms with
  | nil => exact .inr summed
  | cons fst rest =>
    exact .inl (addTerms_keeps keeps (each fst List.mem_cons_self)
      (fun term mem => each term (List.mem_cons_of_mem _ mem)) summed)

/-! ## Roots -/

/-- What the kind of a root that mentions the variable makes of it. -/
def byKind (d : Derivation) : Expr → Derived Expr
  | .literal _ ty => d.zero ty
  | .ident .. => d.one
  | .unary .negate operand _ => do negate (← d.derive operand)
  | .unary op _ _ => .unsupported (.unaryOperator op)
  | .binary op left right _ => d.binary op ⟨left, d.derive left⟩ ⟨right, d.derive right⟩
  | .field base name _ => d.field ⟨base, d.derive base⟩ name
  | .index base position _ => d.index ⟨base, d.derive base⟩ position
  | .conditional condition accept reject _ => do
    match (← condition.simplified).literal? with
    | some (.bool true) => d.derive accept
    | some (.bool false) => d.derive reject
    | _ => .unsupported .dynamicConditional
  | .call function arguments ty => d.call function (d.deriveAll arguments) ty
  | .assign .. => .unsupported .assignment

lemma derive_eq (d : Derivation) (e : Expr) : d.derive e = d.atRoot e fun _ => d.byKind e := by
  cases e with
  | unary op opd ty => cases op <;> rfl
  | _ => rfl

/-- The derivative of a tree that does not mention the variable is zero, and that of another goes by
its kind. -/
lemma derive_form {e : Expr} (der : (d.derive e).outcome = .ok r) :
    (d.depends e = false ∧ (d.zero e.ty).outcome = .ok r)
      ∨ d.depends e ∧ (d.byKind e).outcome = .ok r := by
  rw [derive_eq, atRoot] at der
  split at der
  · next moves => exact .inr ⟨moves, mapError_eq_ok.mp der⟩
  · next still => exact .inl ⟨by simpa using still, mapError_eq_ok.mp der⟩

lemma deriveAll_eq (d : Derivation) (es : List Expr) :
    d.deriveAll es = es.map fun e => ⟨e, d.derive e⟩ := by
  induction es with
  | nil => rfl
  | cons e es ih => rw [deriveAll, ih, List.map_cons]

/-! ## Operators -/

/-- The forms of the derivative of a product. -/
inductive ProductForm (d : Derivation) (left right : Operand) (r : Expr) : Prop
  | constantLeft {dr : Expr} (still : d.depends left.expr = false)
    (onRight : right.derivative.outcome = .ok dr)
    (built : Expr.binaryOf .multiply left.expr dr = .ok r)
  | constantRight {dl : Expr} (still : d.depends right.expr = false)
    (onLeft : left.derivative.outcome = .ok dl)
    (built : Expr.binaryOf .multiply dl right.expr = .ok r)
  | both {dl dr a b : Expr} (onLeft : left.derivative.outcome = .ok dl)
    (onRight : right.derivative.outcome = .ok dr)
    (first : Expr.binaryOf .multiply dl right.expr = .ok a)
    (second : Expr.binaryOf .multiply left.expr dr = .ok b)
    (built : Expr.binaryOf .add a b = .ok r)

lemma product_form {left right : Operand} (der : (d.product left right).outcome = .ok r) :
    ((left.expr.ty.isMatrix || right.expr.ty.isMatrix) → d.isScalar)
      ∧ ProductForm d left right r := by
  unfold product at der
  by_cases blocked : ((left.expr.ty.isMatrix || right.expr.ty.isMatrix) && !d.isScalar)
  · simp only [blocked, if_true] at der
    split at der
    · simp [bind_eq_ok] at der
    · split at der <;> simp [bind_eq_ok] at der
  refine ⟨by simpa using blocked, ?_⟩
  simp only [blocked] at der
  cases movesLeft : d.depends left.expr with
  | false =>
    simp only [movesLeft, Bool.not_false, if_true, Bool.false_eq_true, if_false,
      bind_ok, multiply_eq_ok] at der
    obtain ⟨dr, onR, built⟩ := der
    exact .constantLeft movesLeft onR built
  | true =>
    cases movesRight : d.depends right.expr with
    | false =>
      simp only [movesLeft, movesRight, Bool.not_false, Bool.not_true, if_true, Bool.false_eq_true,
        if_false, bind_ok, multiply_eq_ok] at der
      obtain ⟨dl, onL, built⟩ := der
      exact .constantRight movesRight onL built
    | true =>
      simp only [movesLeft, movesRight, Bool.not_true, Bool.false_eq_true, if_false,
        bind_ok, multiply_eq_ok, add_eq_ok] at der
      obtain ⟨dl, onL, a, fst, dr, onR, b, snd, built⟩ := der
      exact .both onL onR fst snd built

/-- The forms of the derivative of a quotient. -/
inductive RatioForm (d : Derivation) (left right : Operand) (r : Expr) : Prop
  | constantRight {dl : Expr} (still : d.depends right.expr = false)
    (onLeft : left.derivative.outcome = .ok dl)
    (built : Expr.binaryOf .divide dl right.expr = .ok r)
  | constantLeft {dr square above quotient : Expr} (still : d.depends left.expr = false)
    (onRight : right.derivative.outcome = .ok dr)
    (squared : Expr.binaryOf .multiply right.expr right.expr = .ok square)
    (product : Expr.binaryOf .multiply left.expr dr = .ok above)
    (divided : Expr.binaryOf .divide above square = .ok quotient)
    (built : Expr.unaryOf .negate quotient = .ok r)
  | both {dl dr square a b above : Expr} (onLeft : left.derivative.outcome = .ok dl)
    (onRight : right.derivative.outcome = .ok dr)
    (squared : Expr.binaryOf .multiply right.expr right.expr = .ok square)
    (first : Expr.binaryOf .multiply dl right.expr = .ok a)
    (second : Expr.binaryOf .multiply left.expr dr = .ok b)
    (difference : Expr.binaryOf .subtract a b = .ok above)
    (built : Expr.binaryOf .divide above square = .ok r)

lemma ratio_form {left right : Operand} (der : (d.ratio left right).outcome = .ok r) :
    RatioForm d left right r := by
  unfold ratio at der
  split at der
  · next still =>
    simp only [bind_ok, divide_eq_ok] at der
    obtain ⟨dl, onL, built⟩ := der
    exact .constantRight (by simpa using still) onL built
  · rw [bind_ok] at der
    obtain ⟨square, squared, der⟩ := der
    split at der
    · next still =>
      simp only [bind_ok, multiply_eq_ok, divide_eq_ok, negate_eq_ok] at der squared
      obtain ⟨dr, onR, above, prod, quot, divided, built⟩ := der
      exact .constantLeft (by simpa using still) onR squared prod divided built
    · simp only [bind_ok, multiply_eq_ok, divide_eq_ok,
        subtract_eq_ok] at der squared
      obtain ⟨dl, onL, a, fst, dr, onR, b, snd, above, diff, built⟩ := der
      exact .both onL onR squared fst snd diff built

/-! ## Parts of vectors -/

/-- The derivative of a swizzle of a vector. -/
lemma field_form {base : Operand} {name : String} (der : (d.field base name).outcome = .ok r) :
    ∃ size kind swz db, base.expr.ty = .vector size kind ∧ Swizzle.parse name = .ok swz
      ∧ base.derivative.outcome = .ok db
      ∧ (d.isScalar ∧ db.fieldOf name = .ok r ∨ d.isScalar = false ∧ swz.isIdentity size ∧ r = db
        ∨ d.isScalar = false ∧ swz.isIdentity size = false ∧ ∃ pos, swz.pattern = [pos]
            ∧ (d.component db pos.index).outcome = .ok r) := by
  unfold field at der
  split at der
  · next size kind typed =>
    simp only [bind_ok, outcome_ofExcept, mapError_eq_ok] at der
    obtain ⟨swz, parsed, db, onBase, der⟩ := der
    refine ⟨size, kind, swz, db, typed, parsed, onBase, ?_⟩
    cases scal : d.isScalar with
    | true =>
      simp only [scal, if_true, node_eq_ok] at der
      exact .inl ⟨rfl, der⟩
    | false =>
      simp only [scal, Bool.false_eq_true, if_false] at der
      cases identity : swz.isIdentity size with
      | true =>
        simp only [identity, if_true, outcome_pure, Except.ok.injEq] at der
        exact .inr (.inl ⟨rfl, rfl, der.symm⟩)
      | false =>
        simp only [identity, Bool.false_eq_true, if_false] at der
        split at der
        · next pos single => exact .inr (.inr ⟨rfl, rfl, pos, single, der⟩)
        · cases der
  · cases der

/-- The derivative of a component of a vector at a constant index. -/
lemma index_form {base : Operand} {pos : Expr} (der : (d.index base pos).outcome = .ok r) :
    ∃ n db, pos.literal? = some (.int n) ∧ base.expr.ty.isVector ∧ 0 ≤ n.toInt
      ∧ base.derivative.outcome = .ok db
      ∧ (d.isScalar ∧ db.indexOf pos = .ok r
        ∨ d.isScalar = false ∧ (d.component db n.toInt.toNat).outcome = .ok r) := by
  unfold index at der
  split at der
  · next n lit =>
    split at der
    · next allowed =>
      simp only [Bool.and_eq_true, decide_eq_true_eq] at allowed
      simp only [bind_ok] at der
      obtain ⟨db, onBase, der⟩ := der
      refine ⟨n, db, lit, allowed.1, allowed.2, onBase, ?_⟩
      cases scal : d.isScalar with
      | true =>
        simp only [scal, if_true, node_eq_ok] at der
        exact .inl ⟨rfl, der⟩
      | false =>
        simp only [scal, Bool.false_eq_true, if_false] at der
        exact .inr ⟨rfl, der⟩
    · cases der
  · cases der

/-- The gradient of one component: what is picked in its place and zeros elsewhere. -/
lemma component_form {deriv : Expr} {pos : Nat} (der : (d.component deriv pos).outcome = .ok r) :
    ∃ size picked, d.ty.size? = some size ∧ pos < size.count ∧ (match deriv.splat? with
        | some val => picked = .ofFloat (val.convert Format.single)
        | none => deriv.indexOf (.ofInt (Int32.ofNat pos)) = .ok picked)
      ∧ r = .call (Ty.vec size).text
        ((List.range size.count).map fun i => if i = pos then picked else .ofFloat .zero)
        (.vec size) := by
  unfold component at der
  split at der
  · next size found =>
    split at der
    · next ins =>
      cases splat : deriv.splat? with
      | none =>
        simp only [splat, bind_ok, node_eq_ok, outcome_pure, Except.ok.injEq] at der
        obtain ⟨picked, built, rfl⟩ := der
        exact ⟨size, picked, found, ins, built, rfl⟩
      | some val =>
        simp only [splat, bind_ok, outcome_pure, Except.ok.injEq] at der
        obtain ⟨picked, same, rfl⟩ := der
        exact ⟨size, picked, found, ins, same.symm, rfl⟩
    · cases der
  · cases der

/-! ## Constructors -/

lemma derivatives_eq_ok {rs : List Expr} : (derivatives opds).outcome = .ok rs ↔
      List.Forall₂ (fun u r => u.derivative.outcome = .ok r) opds rs :=
  eq_ok_iff_forall₂ (fun us => (derivatives us).outcome) rfl fun u us => by
    simp only [derivatives, outcome_bind, outcome_pure]
    rfl

/-- The derivative of a constructor: that of the only argument of `float`, and a constructor of the
derivatives for a vector or a matrix. -/
lemma construction_form {ty : Ty} (der : (d.construction ty opds).outcome = .ok r) :
    (ty = .float ∧ ∃ u, opds = [u] ∧ u.derivative.outcome = .ok r)
      ∨ ((∃ size, ty = .vec size) ∨ ∃ cols rows, ty = .matrix cols rows)
        ∧ d.isScalar ∧ ∃ rs, (derivatives opds).outcome = .ok rs ∧ r = .call ty.text rs ty := by
  unfold construction at der
  dsimp only at der
  split at der
  · split at der
    · next u => exact .inl ⟨rfl, u, rfl, der⟩
    · cases der
  · next size =>
    split at der
    · next scal =>
      simp only [bind_ok, outcome_pure, Except.ok.injEq] at der
      obtain ⟨rs, all, rfl⟩ := der
      exact .inr ⟨.inl ⟨size, rfl⟩, scal, rs, all, rfl⟩
    · cases der
  · next cols rows =>
    split at der
    · next scal =>
      simp only [bind_ok, outcome_pure, Except.ok.injEq] at der
      obtain ⟨rs, all, rfl⟩ := der
      exact .inr ⟨.inr ⟨cols, rows, rfl⟩, scal, rs, all, rfl⟩
    · cases der
  · cases der

/-! ## The chain rule -/

/-- One step of the chain rule. -/
lemma chainTerms_cons {fn param : String} {args : List Expr} {tot : Option Expr}
    {u : Operand} {rest : List (String × Operand)} {res : Option Expr}
    (der : (d.chainTerms fn args tot ((param, u) :: rest)).outcome = .ok res) :
    (d.depends u.expr = false ∧ (d.chainTerms fn args tot rest).outcome = .ok res)
      ∨ ∃ du term sum, d.depends u.expr ∧ d.catalogue.hasDerivative fn param
        ∧ u.derivative.outcome = .ok du
        ∧ Expr.binaryOf .multiply (.call (derivativeName param fn) args .float) du = .ok term
        ∧ (match tot with
          | some tot => Expr.binaryOf .add tot term = .ok sum
          | none => sum = term)
        ∧ (d.chainTerms fn args (some sum) rest).outcome = .ok res := by
  rw [chainTerms] at der
  cases moves : d.depends u.expr with
  | false =>
    simp only [moves, Bool.not_false, if_true] at der
    exact .inl ⟨rfl, der⟩
  | true =>
    right
    simp only [moves, Bool.not_true, Bool.false_eq_true, if_false] at der
    cases avail : d.catalogue.hasDerivative fn param with
    | false => simp [avail, bind_eq_ok] at der
    | true =>
      simp only [avail, Bool.not_true, Bool.false_eq_true, if_false, outcome_bind,
        bind_eq_ok, multiply_eq_ok] at der
      obtain ⟨du, onArg, term, built, der⟩ := der
      cases tot with
      | none => exact ⟨du, term, term, rfl, rfl, onArg, built, rfl, der⟩
      | some tot =>
        simp only [bind_ok, add_eq_ok] at der
        obtain ⟨sum, added, der⟩ := der
        exact ⟨du, term, sum, rfl, rfl, onArg, built, added, der⟩

/-- The chain rule adds the terms up. Without a term the derivative is zero. -/
lemma chain_form {fn : String} {ps : List String} {ty : Ty}
    (der : (d.chain fn ps opds ty).outcome = .ok r) :
    ps.length = opds.length ∧ ∃ tot,
      (d.chainTerms fn (opds.map (·.expr)) none (ps.zip opds)).outcome = .ok tot
      ∧ (tot = some r ∨ tot = none ∧ (d.zero ty).outcome = .ok r) := by
  unfold chain at der
  by_cases count : ps.length = opds.length
  · simp only [count, ne_eq, not_true_eq_false, if_false, outcome_bind,
      bind_eq_ok] at der
    obtain ⟨tot, terms, der⟩ := der
    refine ⟨count, tot, terms, ?_⟩
    cases tot with
    | none => exact .inr ⟨rfl, der⟩
    | some tot =>
      simp only [outcome_pure, Except.ok.injEq] at der
      exact .inl (congrArg some der)
  · simp [count, bind_eq_ok] at der

end Derivation

@[simp] lemma DerivativeRule.only_eq_ok {bi : Builtin} {opds : List Operand} {u : Operand} :
    (only bi opds).outcome = .ok u ↔ opds = [u] := by
  unfold only
  split
  · simp
  · next oth => exact ⟨nofun, fun single => absurd single (oth u)⟩

end ShaderAlgebra
