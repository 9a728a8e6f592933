import ShaderAlgebra.Calculus.Inline
import ShaderAlgebra.Proofs.Semantics.Exact
import ShaderAlgebra.Proofs.Semantics.Run
import ShaderAlgebra.Proofs.Simplify.Typing
import ShaderAlgebra.Proofs.Typing.Bodies

/-!
# Locals that agree with a machine

Inlining keeps an expression for each variable where a machine keeps a value. The two agree when the
expression has the value, evaluated where the body starts (`Agrees`). The expressions are annotated
there, where the locals are not yet declared, so none of them mentions a local. This takes a body that
is plain. Of any other body the types agree (`PutIn`).

An expression with its locals put in then has the value that it has in the machine
(`Agrees.inlineLocals`), and declarations, assignments and the ends of scopes keep the agreement.
-/

namespace ShaderAlgebra

open ShaderAlgebra.Expr List

variable {e : Expr} {site : Site}

/-! ## Trees that write to nothing -/

namespace Expr

/-- Whether the tree holds no assignment and calls no function that writes to its arguments. -/
def IsPure (site : Site) (e : Expr) : Prop := ∀ s, Within s e → site.WritesNothing s

lemma isPure_iff : e.IsPure site ↔ site.WritesNothing e ∧ ∀ part ∈ e.children, part.IsPure site :=
  forall_within_iff

/-- The tree is pure, or it assigns as a whole and has pure parts. -/
def IsPureStatement (site : Site) : Expr → Prop
  | .assign _ target value _ => target.IsPure site ∧ value.IsPure site
  | e => e.IsPure site

end Expr

/-! ## Stored values -/

namespace Value

variable {A : Arithmetic}

/-- Constructing a float type from an integer value of its size converts the value. -/
lemma construct_eq_convertTo {v : Value A} {size : Option Dim} (typed : v.ty = Ty.plain size .int) :
    construct (Ty.plain size .float) [v] = v.convertTo (Ty.plain size .float) := by
  cases size with
  | none =>
    have oth : v.ty ≠ .scalar .float := by simp [typed, Ty.plain]
    have only : components .float v = [v.component .float 0 0] := by
      simp [components, typed, Ty.plain]
    simp [construct, convertTo, Ty.plain, build, oth, only]
  | some size =>
    have oth : v.ty ≠ Ty.vector size .float := by simp [typed, Ty.plain]
    have notSc : v.ty.isScalar = false := by simp [typed, Ty.plain, Ty.isScalar]
    have inOrder : components .float v
        = (List.range size.count).map fun row => v.component .float 0 row := by
      simp [components, typed, Ty.plain]
    simp [construct, convertTo, Ty.plain, build, oth, notSc, inOrder]

end Value

namespace Expr

variable {x : Expr} {locals : Locals}

lemma ofName?_text_plain_float (size : Option Dim) :
    Ty.ofName? (Ty.plain size .float).text = some (Ty.plain size .float) := by
  cases size with
  | none => rfl
  | some size => exact ofName?_text_vector size .float

lemma construct_plain_float (size : Option Dim) :
    (Ty.plain size .float).construct [Ty.plain size .int] = .ok () := by
  cases size with
  | none => rfl
  | some size => cases size <;> rfl

lemma fits_storedAs {ty : Ty} (conv : x.ty.convertsTo ty) (oth : x.ty ≠ ty) :
    site.Fits (.call ty.text [x] ty) := by
  obtain ⟨size, src, rfl⟩ := (Ty.convertsTo_iff.mp conv).resolve_left oth
  simp [Site.Fits, Site.callType_eq_ok, ofName?_text_plain_float size, src, construct_plain_float]

lemma ty_storedAs (x : Expr) (ty : Ty) : (x.storedAs ty).ty = ty := by
  unfold storedAs
  split
  · next same => exact same
  · rfl

/-- What a variable takes has the value converted to the variable's type. -/
lemma eval_storedAs {ty : Ty} (ann : x.IsAnnotated site) (conv : x.ty.convertsTo ty)
    {A : Arithmetic} (I : Interpretation A) : (x.storedAs ty).eval I = (x.eval I).convertTo ty := by
  by_cases same : x.ty = ty
  · rw [storedAs, if_pos same, Value.convertTo, if_pos ((eval_ty I ann).trans same)]
  · rw [storedAs, if_neg same]
    obtain ⟨size, src, rfl⟩ := (Ty.convertsTo_iff.mp conv).resolve_left same
    simp only [eval, evalAll, Interpretation.call, ofName?_text_plain_float]
    exact Value.construct_eq_convertTo ((eval_ty I ann).trans src)

/-! ## Expressions with their locals put in -/

/-- The tree with its locals put in, or the tree itself if that fails. -/
def inlined (locals : Locals) (e : Expr) : Expr := (e.inlineLocals locals).toOption.getD e

lemma inlined_eq (inline : e.inlineLocals locals = .ok x) : e.inlined locals = x := by
  rw [inlined, inline]
  rfl

lemma inlineLocalsAll_eq_ok {es xs : List Expr} (inline : inlineLocalsAll locals es = .ok xs) :
    xs = es.map (inlined locals) ∧ ∀ e ∈ es, e.inlineLocals locals = .ok (e.inlined locals) := by
  induction es generalizing xs with
  | nil =>
    cases inline
    exact ⟨rfl, by simp⟩
  | cons e es ih =>
    simp only [inlineLocalsAll, bind_eq_ok, pure_eq_ok] at inline
    obtain ⟨x, fst, xs, rest, rfl⟩ := inline
    obtain ⟨rfl, each⟩ := ih rest
    have own := inlined_eq fst
    refine ⟨by rw [map_cons, own], fun oth mem => ?_⟩
    rcases mem_cons.mp mem with rfl | inRest
    · rw [own, fst]
    · exact each oth inRest

/-- Of a node other than a variable, only the parts are changed. -/
lemma inlineLocals_eq_ok (inline : e.inlineLocals locals = .ok x)
    (notId : ∀ name ty, e ≠ .ident name ty) :
    x = e.mapParts (inlined locals)
      ∧ ∀ part ∈ e.children, part.inlineLocals locals = .ok (part.inlined locals) := by
  cases e with
  | ident name ty => exact (notId name ty rfl).elim
  | literal val ty =>
    cases inline
    exact ⟨rfl, by simp [children]⟩
  | call fn args ty =>
    simp only [inlineLocals, bind_eq_ok, pure_eq_ok] at inline
    obtain ⟨xs, inlineArguments, rfl⟩ := inline
    obtain ⟨rfl, each⟩ := inlineLocalsAll_eq_ok inlineArguments
    exact ⟨rfl, each⟩
  | field part name ty | unary op part ty =>
    simp only [inlineLocals, bind_eq_ok, pure_eq_ok] at inline
    obtain ⟨part', inlinePart, rfl⟩ := inline
    simp [mapParts, children, inlined_eq inlinePart, inlinePart]
  | index left right ty | binary op left right ty | assign op left right ty =>
    simp only [inlineLocals, bind_eq_ok, pure_eq_ok] at inline
    obtain ⟨left', inlineLeft, right', inlineRight, rfl⟩ := inline
    simp [mapParts, children, inlined_eq inlineLeft, inlineLeft, inlined_eq inlineRight,
      inlineRight]
  | conditional cond acc rej ty =>
    simp only [inlineLocals, bind_eq_ok, pure_eq_ok] at inline
    obtain ⟨cond', inlCond, acc', inlineAccept, rej', inlineReject, rfl⟩ := inline
    simp [mapParts, children, inlined_eq inlCond, inlCond,
      inlined_eq inlineAccept, inlineAccept, inlined_eq inlineReject, inlineReject]

end Expr

/-! ## Agreement of expressions and values -/

section Agreement

variable {A : Arithmetic} {scopes : List (Bindings (Option Expr))} (I : Interpretation A)
  (entry : Site) (plain : Prop)

/-- A tree that stands for a value is well-typed where the body starts. If the body is plain, it is
annotated there and has the value. -/
structure PutIn (x : Expr) (v : Value A) : Prop where
  fits : ∀ s, Expr.Within s x → plain ∨ entry.WritesNothing s → entry.Fits s
  value : plain → x.eval I = v

/-- A local variable agrees with its expression: neither is set, or the expression stands for the
variable's value and is of the type that the name is known to have. -/
inductive SlotAgrees (known : Option Ty) : Option Expr → Option (Value A) → Prop
  | unset : SlotAgrees known none none
  | set {x : Expr} {v : Value A} : PutIn I entry plain x v → known = some x.ty →
      SlotAgrees known (some x) (some v)

/-- What is seen of a name through all scopes agrees: a local variable, a parameter or global that
was assigned, or one that was not. -/
inductive NameAgrees (outside : Valuation A) (name : String) (known : Option Ty) :
    Option (Option Expr) → Option (Option (Value A)) → Prop
  | slot {x : Option Expr} {v : Option (Value A)} : SlotAgrees I entry plain known x v →
      NameAgrees outside name known (some x) (some v)
  | assigned {x : Expr} : PutIn I entry plain x ⟨x.ty, outside name x.ty⟩ → known = some x.ty →
      NameAgrees outside name known (some (some x)) none
  | untouched : known = entry.symbols.lookup name → outside name = I.read name →
      NameAgrees outside name known none none

/-- A name agrees in one scope: both scopes have it, or it means what it means around the scope. -/
inductive ScopeAgrees (known around : Option Ty) :
    Option (Option Expr) → Option (Option (Value A)) → Prop
  | slot {x : Option Expr} {v : Option (Value A)} : SlotAgrees I entry plain known x v →
      ScopeAgrees known around (some x) (some v)
  | absent : known = around → ScopeAgrees known around none none

/-- The scopes of expressions agree with those of a machine, under the names of each scope. The
outermost scope of expressions also has the parameters and globals that were assigned, which are
outside of all scopes of the machine. -/
inductive Agreement (outside : Valuation A) :
    List (Bindings (Option Expr)) → List Names → List (Slots A) → Prop
  | outermost {scope : Bindings (Option Expr)} {names : Names} {slots : Slots A}
      (each : ∀ name, NameAgrees I entry plain outside name (names name) (scope.get? name)
        (slots.get? name)) :
      Agreement outside [scope] [names] [slots]
  | inner {scope : Bindings (Option Expr)} {names around : Names} {slots : Slots A}
      {scopes : List (Bindings (Option Expr))} {more : List Names} {frames : List (Slots A)}
      (each : ∀ name, ScopeAgrees I entry plain (names name) (around name) (scope.get? name)
        (slots.get? name))
      (rest : Agreement outside scopes (around :: more) frames) :
      Agreement outside (scope :: scopes) (names :: around :: more) (slots :: frames)

/-- The locals agree with the machine. -/
def Agrees (locals : Locals) (names : List Names) (m : Machine A) : Prop :=
  Agreement I entry plain m.outside (locals.inner :: locals.outer) names m.scopes

variable {I entry plain} {locals : Locals} {names : Names} {more : List Names} {m : Machine A}

lemma Agreement.name {outside : Valuation A} {frames : List (Slots A)}
    (agreement : Agreement I entry plain outside scopes (names :: more) frames) (name : String) :
    NameAgrees I entry plain outside name (names name) (scopes.findSome? fun scope => scope.get? name)
      (frames.findSome? fun slots => slots.get? name) := by
  generalize stack : names :: more = all at agreement
  induction agreement generalizing names more with
  | @outermost scope _ slots each =>
    obtain ⟨rfl, rfl⟩ := List.cons.inj stack
    have own := each name
    rw [findSome?_cons, findSome?_cons]
    generalize scope.get? name = x, slots.get? name = v at own ⊢
    cases own with
    | slot agrees => exact .slot agrees
    | assigned put known => exact .assigned put known
    | untouched known same => exact .untouched known same
  | @inner scope _ around slots _ _ _ each rest ih =>
    obtain ⟨rfl, -⟩ := List.cons.inj stack
    have own := each name
    rw [findSome?_cons, findSome?_cons]
    generalize scope.get? name = x, slots.get? name = v at own ⊢
    cases own with
    | slot agrees => exact .slot agrees
    | absent same =>
      rw [same]
      exact ih rfl

variable {name : String} {ty : Ty} {x : Expr} {v : Value A}

namespace PutIn

section

variable (put : PutIn I entry plain x v)

include put

lemma annotated (isPl : plain) : x.IsAnnotated entry := fun s ins => put.fits s ins (.inl isPl)

lemma dataAs : PutIn I entry plain x ⟨x.ty, v.dataAs x.ty⟩ := by
  refine ⟨put.fits, fun isPl => ?_⟩
  rw [← put.value isPl]
  exact (Value.mk_dataAs (eval_ty I (put.annotated isPl))).symm

lemma storedAs (conv : x.ty.convertsTo ty) :
    PutIn I entry plain (x.storedAs ty) (v.convertTo ty) := by
  refine ⟨?_, fun isPl => ?_⟩
  · unfold Expr.storedAs
    split
    · exact put.fits
    · next oth =>
      exact within_single rfl (fun _ => fits_storedAs conv oth) put.fits
  · rw [eval_storedAs (put.annotated isPl) conv, put.value isPl]

end

end PutIn

/-- A variable that is put in its place has the type and the value that the variable has. -/
lemma Agrees.ident (agrees : Agrees I entry plain locals (names :: more) m)
    (known : names name = some ty) (inline : (Expr.ident name ty).inlineLocals locals = .ok x) :
    PutIn I entry plain x ((Expr.ident name ty).eval (m.meaning I)) ∧ x.ty = ty := by
  have seen : NameAgrees I entry plain m.outside name (names name) (locals.get? name)
    (m.get? name) := agrees.name name
  rw [known] at seen
  have val : (Expr.ident name ty).eval (m.meaning I) = ⟨ty, m.read name ty⟩ := rfl
  rw [val, Machine.read]
  simp only [Expr.inlineLocals] at inline
  generalize locals.get? name = found, m.get? name = held at seen inline ⊢
  cases seen with
  | slot agrees =>
    cases agrees with
    | unset => cases inline
    | set put typed =>
      cases inline
      obtain rfl := Option.some.inj typed
      exact ⟨put.dataAs, rfl⟩
  | assigned put typed =>
    cases inline
    obtain rfl := Option.some.inj typed
    exact ⟨put, rfl⟩
  | untouched typed same =>
    cases inline
    refine ⟨⟨within_leaf rfl fun _ => typed.symm, ?_⟩, rfl⟩
    simp [Expr.eval, same]

/-- A tree with its locals put in stands for the value that it has in the machine, and has its
type. -/
lemma Agrees.inlineLocals (agrees : Agrees I entry plain locals (names :: more) m)
    (ann : e.IsAnnotatedUnder entry names) (pure : plain → e.IsPure entry)
    (inline : e.inlineLocals locals = .ok x) :
    PutIn I entry plain x (e.eval (m.meaning I)) ∧ x.ty = e.ty := by
  induction e using Expr.induction generalizing x with
  | node e ih =>
    have fits := ann e .root
    by_cases isIdent : ∃ name ty, e = .ident name ty
    · obtain ⟨name, ty, rfl⟩ := isIdent
      exact agrees.ident fits inline
    · have notId : ∀ name ty, e ≠ .ident name ty := fun name ty same =>
        isIdent ⟨name, ty, same⟩
      obtain ⟨rfl, inlineParts⟩ := inlineLocals_eq_ok inline notId
      have parts : ∀ part ∈ e.children,
          PutIn I entry plain (part.inlined locals) (part.eval (m.meaning I))
            ∧ (part.inlined locals).ty = part.ty := fun part mem =>
        ih part mem (ann.part mem)
          (fun isPl => (isPure_iff.mp (pure isPl)).2 part mem) (inlineParts part mem)
      have fitsEntry : entry.Fits e := by
        cases e with
        | ident name ty => exact (notId name ty rfl).elim
        | _ => exact fits
      refine ⟨⟨forall_within_iff.mpr ⟨fun counts => ?_, fun part mem => ?_⟩, fun isPl => ?_⟩,
        ty_mapParts _ e⟩
      · refine fitsEntry.mapParts (.refl entry) (fun name ty same => (notId name ty same).elim)
          (fun part mem => (parts part mem).2) (.inl ?_)
        rcases counts with isPl | nothing
        · exact (isPure_iff.mp (pure isPl)).1
        · cases e with
          | call fn args ty =>
            have tys : (args.map (Expr.inlined locals)).map Expr.ty = args.map Expr.ty := by
              rw [map_map]
              exact map_congr_left fun x mem => (parts x mem).2
            simpa only [Expr.mapParts, Site.WritesNothing, tys] using nothing
          | assign => exact nothing
          | _ => trivial
      · rw [children_mapParts] at mem
        obtain ⟨given, ins, rfl⟩ := mem_map.mp mem
        exact (parts given ins).1.fits
      · exact eval_mapParts_congr rfl rfl
          (fun name ty same => (notId name ty same).elim)
          fun part mem => (parts part mem).1.value isPl

/-! ## Steps that keep the agreement -/

lemma agrees_start (verdicts : List Bool) :
    Agrees I entry plain .empty [entry.symbols.lookup] ⟨[.empty], I.read, verdicts⟩ :=
  .outermost fun _ => .untouched rfl rfl

lemma Agrees.withVerdicts (agrees : Agrees I entry plain locals (names :: more) m)
    (verdicts : List Bool) :
    Agrees I entry plain locals (names :: more) { m with verdicts := verdicts } :=
  agrees

lemma Agrees.openScope (agrees : Agrees I entry plain locals (names :: more) m) :
    Agrees I entry plain locals.openScope (names :: names :: more) m.openScope :=
  .inner (fun _ => .absent rfl) agrees

lemma Agrees.closeScope {around : Names}
    (agrees : Agrees I entry plain locals (names :: around :: more) m) :
    Agrees I entry plain locals.closeScope (around :: more) m.closeScope := by
  obtain ⟨scope, scopes⟩ := locals
  obtain ⟨frames, outside, verdicts⟩ := m
  cases agrees with
  | inner each rest =>
    cases rest with
    | outermost each => exact .outermost each
    | inner each rest => exact .inner each rest

lemma Agrees.declare (agrees : Agrees I entry plain locals (names :: more) m) (name : String)
    {x : Option Expr} {v : Option (Value A)} (slot : SlotAgrees I entry plain (some ty) x v) :
    Agrees I entry plain (locals.declare name x) (names.declare name ty :: more) (m.declare name v) := by
  obtain ⟨scope, scopes⟩ := locals
  obtain ⟨frames, outside, verdicts⟩ := m
  cases agrees with
  | outermost each =>
    refine .outermost fun oth => ?_
    simp only [Locals.declare, Bindings.get?_set, Names.declare]
    split
    · exact .slot slot
    · exact each oth
  | inner each rest =>
    refine .inner (fun oth => ?_) rest
    simp only [Locals.declare, Bindings.get?_set, Names.declare]
    split
    · exact .slot slot
    · exact each oth

/-- What is seen of a name depends on no other variable outside. -/
lemma NameAgrees.of_outside {outside outside' : Valuation A} {known : Option Ty}
    {x : Option (Option Expr)} {v : Option (Option (Value A))}
    (agrees : NameAgrees I entry plain outside name known x v) (same : outside' name = outside name) :
    NameAgrees I entry plain outside' name known x v := by
  cases agrees with
  | slot agrees => exact .slot agrees
  | assigned put known => exact .assigned (same ▸ put) known
  | untouched known read => exact .untouched known (same.trans read)

/-- Assigning a name in the scopes of expressions agrees with storing the value in the innermost
scope of the machine that holds the name, or else outside of all of them. -/
lemma Agreement.store {scope : Bindings (Option Expr)} {frames : List (Slots A)}
    (agr : Agreement I entry plain m.outside (scope :: scopes) (names :: more) frames)
    (put : PutIn I entry plain x v) (known : names name = some x.ty) :
    Agrees I entry plain (Locals.assignIn name (some x) scope scopes) (names :: more)
      ({ m with scopes := frames }.store name v) := by
  -- The induction is on the scopes, inwards out, and stops at the first that holds the name.
  generalize stack : scope :: scopes = all, layers : names :: more = layered at agr
  induction agr generalizing scope scopes names more with
  | @outermost own _ slots each =>
    obtain ⟨rfl, rfl⟩ := List.cons.inj stack
    obtain ⟨rfl, rfl⟩ := List.cons.inj layers
    cases held : slots.contains name with
    | true =>
      rw [Machine.store_present held]
      refine .outermost fun oth => ?_
      simp only [Locals.assignIn, Bindings.get?_set]
      split
      · next same => exact .slot (.set put (same ▸ known))
      · exact each oth
    | false =>
      rw [Machine.store_absent held]
      refine .outermost fun oth => ?_
      have missing : slots.get? name = none := by simpa [Bindings.contains] using held
      simp only [Locals.assignIn, Bindings.get?_set]
      split
      · next same =>
        subst same
        rw [missing]
        refine .assigned ?_ known
        simp only [Machine.store, Machine.storeIn?, if_true]
        exact put.dataAs
      · next otherName =>
        refine (each oth).of_outside ?_
        simp [Machine.store, Machine.storeIn?, otherName]
  | @inner own _ around slots others more' frames' each rest ih =>
    obtain ⟨rfl, rfl⟩ := List.cons.inj stack
    obtain ⟨rfl, rfl⟩ := List.cons.inj layers
    obtain ⟨next, out, rfl⟩ : ∃ next out, scopes = next :: out := by
      cases rest <;> exact ⟨_, _, rfl⟩
    have cell := each name
    generalize found : scope.get? name = slot, held : slots.get? name = kept at cell
    cases cell with
    | slot agrees =>
      have inScope : scope.contains name := by simp [Bindings.contains, found]
      have inSlots : slots.contains name := by simp [Bindings.contains, held]
      rw [Machine.store_present inSlots, Locals.assignIn, if_pos inScope]
      refine .inner (fun oth => ?_) rest
      simp only [Bindings.get?_set]
      split
      · next same => exact .slot (.set put (same ▸ known))
      · exact each oth
    | absent same =>
      have notInScope : scope.contains name = false := by simp [Bindings.contains, found]
      have notInSlots : slots.contains name = false := by simp [Bindings.contains, held]
      rw [Machine.store_absent notInSlots, Locals.assignIn, if_neg (by simp [notInScope])]
      exact .inner each (ih (same ▸ known) rfl rfl)

lemma Agrees.store (agrees : Agrees I entry plain locals (names :: more) m)
    (put : PutIn I entry plain x v) (known : names name = some x.ty) :
    Agrees I entry plain (locals.assign name x) (names :: more) (m.store name v) :=
  Agreement.store agrees put known

/-- An expression statement that is inlined stores what it puts in. -/
lemma Agrees.inlineAssignment {locs' : Locals}
    (agrees : Agrees I entry plain locals (names :: more) m)
    (ann : e.IsAnnotatedUnder entry names) (pure : plain → e.IsPureStatement entry)
    (inline : e.inlineAssignment locals = .ok locs') :
    ∃ name x v, locs' = locals.assign name x ∧ e.run I m = .through (m.store name v)
      ∧ PutIn I entry plain x v ∧ names name = some x.ty := by
  unfold Expr.inlineAssignment at inline
  split at inline
  · next op name ty val whole =>
    have known : names name = some ty := ann (.ident name ty) (.part mem_target .root)
    have asgn : ty.assignableFrom op val.ty := (ann _ .root).2.1
    obtain ⟨x, inlineValue, inline⟩ := bind_eq_ok.mp inline
    obtain ⟨put, tyX⟩ := agrees.inlineLocals (ann.part mem_value)
      (fun isPl => (pure isPl).2) inlineValue
    cases op with
    | none =>
      cases inline
      exact ⟨name, _, _, rfl, rfl, put.storedAs (tyX ▸ asgn),
        known.trans (congrArg some (x.ty_storedAs ty).symm)⟩
    | some op =>
      dsimp only at inline
      split at inline
      · obtain ⟨current, inlineTarget, inline⟩ := bind_eq_ok.mp inline
        obtain ⟨combined, built, inline⟩ := bind_eq_ok.mp inline
        cases inline
        obtain ⟨putCurrent, tyCurrent⟩ := agrees.ident known inlineTarget
        obtain ⟨tyCombined, typed, rfl⟩ := binaryOf_eq_ok.mp (mapError_eq_ok.mp built)
        have putCombined : PutIn I entry plain (.binary op current x tyCombined)
            (.binary op ((Expr.ident name ty).eval (m.meaning I)) (val.eval (m.meaning I))) := by
          refine ⟨within_pair rfl (fun _ => typed) putCurrent.fits put.fits, fun isPl => ?_⟩
          rw [← putCurrent.value isPl, ← put.value isPl, Expr.eval]
        have same : tyCombined.convertsTo ty := by
          simp only [Ty.assignableFrom, Bool.and_eq_true, beq_iff_eq] at asgn
          rw [tyCurrent, tyX, asgn.2] at typed
          exact Ty.convertsTo_iff.mpr (.inl (Option.some.inj typed).symm)
        exact ⟨name, _, _, rfl, rfl, putCombined.storedAs same,
          known.trans (congrArg some (ty_storedAs _ ty).symm)⟩
      · cases inline
  · cases inline

end Agreement

end ShaderAlgebra
