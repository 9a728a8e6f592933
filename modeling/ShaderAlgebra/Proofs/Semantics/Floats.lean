import ShaderAlgebra.Proofs.Semantics.Exact

/-!
# Floats and float vectors

The values of the generic float types in any arithmetic, by their entries. `Value.Entrywise φ v w`
says that `v` and `w` are of one such type, in two arithmetics that may differ, and that `φ` takes
the entries of `v` to those of `w`.

Selecting, indexing and constructing move entries about, so they keep this relation for every `φ`
that takes zero to zero. Negation and the four operations keep it where `φ` commutes with them.
-/

namespace ShaderAlgebra

open List

variable {op : BinaryOp} {place : Nat} {ty : Ty}

namespace Ty

variable {ty : Ty}

lemma isGenericFloat_iff : ty.isGenericFloat ↔ ∃ size, ty = plain size .float := by
  constructor
  · intro generic
    unfold isGenericFloat at generic
    split at generic
    · exact ⟨none, rfl⟩
    · next size => exact ⟨some size, rfl⟩
    · cases generic
  · rintro ⟨size, rfl⟩
    cases size <;> rfl

section

variable (generic : ty.isGenericFloat = true)

include generic

lemma isMatrix_of_generic : ty.isMatrix = false := by
  obtain ⟨size, rfl⟩ := isGenericFloat_iff.mp generic
  cases size <;> rfl

lemma isPlain_of_generic : ty.IsPlain := by
  obtain ⟨size, rfl⟩ := isGenericFloat_iff.mp generic
  exact isPlain_plain rfl

lemma kind?_of_generic : ty.kind?.isSome := by
  obtain ⟨size, rfl⟩ := isGenericFloat_iff.mp generic
  cases size <;> rfl

end

/-- The result of an operation on floats and float vectors is one too, and the operands have the
rows that it has. -/
lemma binary?_generic {left right : Ty} (wise : Value.IsComponentWise op)
    (genL : left.isGenericFloat) (genR : right.isGenericFloat)
    (typed : binary? op left right = some ty) :
    ty.isGenericFloat ∧ ∀ row, ty.HasRow row → left.HasRow row ∧ right.HasRow row := by
  have nmL := isMatrix_of_generic genL
  have nmR := isMatrix_of_generic genR
  rw [Value.binary?_eq_componentWise? wise nmL nmR] at typed
  refine ⟨?_, (componentWise?_isPlain typed nmL nmR).2.2.2⟩
  obtain ⟨sizeL, sizeR, a, b, kind, rfl, rfl, rfl, unified, -⟩ := componentWise?_plain typed nmL nmR
  have isF {size : Option Dim} {kind : Kind}
      (generic : (plain size kind).isGenericFloat) : kind = .float := by
    cases size <;> cases kind <;> simp_all [plain, isGenericFloat]
  obtain rfl := isF genL
  obtain rfl := isF genR
  obtain rfl : Kind.float = kind := Option.some.inj unified
  exact isGenericFloat_iff.mpr ⟨_, rfl⟩

end Ty

/-! ## Entries -/

namespace Value

variable {A : Arithmetic} {v : Value A} {row : Nat} {size : Dim}

/-- The component in a row. -/
def entry (v : Value A) (row : Nat) : A.Real := v.component .float 0 row

/-- The components in order. -/
def entries (v : Value A) : List A.Real := v.components .float

lemma entry_float {x : A.Real} (row : Nat) : (⟨Ty.float, x⟩ : Value A).entry row = x := rfl

/-- A value of a generic float type is determined by its entries. -/
lemma ext_entry {w : Value A} (same : v.ty = w.ty) (generic : v.ty.isGenericFloat)
    (entries : ∀ row, v.ty.HasRow row → v.entry row = w.entry row) : v = w := by
  obtain ⟨ty, x⟩ := v
  obtain ⟨ty', y⟩ := w
  obtain rfl : ty = ty' := same
  obtain ⟨size, rfl⟩ := Ty.isGenericFloat_iff.mp generic
  cases size with
  | none => exact congrArg (Value.mk _) (entries 0 (Ty.hasRow_zero _))
  | some size =>
    have rows (i : Fin size.count) := entries i (by simp [Ty.HasRow, Ty.plain, Ty.size?])
    simp only [entry, Ty.plain, component, Fin.is_lt, dite_true, Fin.eta] at rows
    exact congrArg (Value.mk _) (funext rows)

/-- A scalar has one entry. -/
lemma entry_spread (typed : v.ty = Ty.float) (row : Nat) : v.entry row = v.entry 0 := by
  have scal : v.ty = .plain none .float := typed
  exact (component_spread scal row).symm

/-- The constructor `float` of a float. -/
lemma construct_float (typed : v.ty = Ty.float) : construct Ty.float [v] = v := by
  obtain ⟨ty, x⟩ := v
  obtain rfl : ty = Ty.float := typed
  rfl

lemma entry_build (generic : ty.isGenericFloat)
    {comp : (kind : Kind) → (col row : Nat) → kind.Carrier A} (ins : ty.HasRow row)
    (spread : ty = Ty.float → comp .float 0 0 = comp .float 0 row) :
    (build ty comp).entry row = comp .float 0 row := by
  obtain ⟨size, rfl⟩ := Ty.isGenericFloat_iff.mp generic
  cases size with
  | none => exact spread rfl
  | some size =>
    have lt : row < size.count := ins size rfl
    simp only [entry, build, Ty.plain, Value.component, lt, dite_true]
    rfl

/-- The entries of an operation on floats and float vectors are calculated one by one. -/
lemma entry_binary (wise : IsComponentWise op) {w : Value A} (genV : v.ty.isGenericFloat)
    (genW : w.ty.isGenericFloat) (typed : Ty.binary? op v.ty w.ty = some ty) (ins : ty.HasRow row) :
    (binary op v w).entry row = A.real.combine op (v.entry row) (w.entry row) := by
  have calculated : binary op v w = arithmetic op ty v w := by
    rcases wise with rfl | rfl | rfl | rfl <;> simp only [binary, typed]
    exact product_eq_arithmetic (Ty.isMatrix_of_generic genV) (Ty.isMatrix_of_generic genW)
  rw [calculated, arithmetic, entry_build (Ty.binary?_generic wise genV genW typed).1 ins]
  · rfl
  · rintro rfl
    -- Only two scalars give a scalar.
    have scalars : v.ty = Ty.float ∧ w.ty = Ty.float := by
      rw [binary?_eq_componentWise? wise (Ty.isMatrix_of_generic genV)
        (Ty.isMatrix_of_generic genW)] at typed
      obtain ⟨sizeV, hv⟩ := Ty.isGenericFloat_iff.mp genV
      obtain ⟨sizeW, hw⟩ := Ty.isGenericFloat_iff.mp genW
      cases sizeV <;> cases sizeW <;>
        simp_all [Ty.plain, Ty.componentWise?, Kind.unify?, Ty.float]
    exact (congrArg₂ (A.real.combine op) (entry_spread scalars.1 row)
      (entry_spread scalars.2 row)).symm

lemma ty_negate (generic : v.ty.isGenericFloat) : (unary .negate v).ty = v.ty := by
  refine ty_unary ?_
  obtain ⟨size, typed⟩ := Ty.isGenericFloat_iff.mp generic
  rw [typed]
  cases size <;> rfl

lemma entry_negate (generic : v.ty.isGenericFloat) (ins : v.ty.HasRow row) :
    (unary .negate v).entry row = A.real.negate (v.entry row) := by
  have res : Ty.unary? .negate v.ty = some v.ty := by
    obtain ⟨size, typed⟩ := Ty.isGenericFloat_iff.mp generic
    rw [typed]
    cases size <;> rfl
  simp only [unary, res]
  rw [entry_build generic ins]
  · rfl
  · intro scal
    exact (congrArg A.real.negate (entry_spread scal row)).symm

/-- A swizzle of one component. -/
lemma field_single {name : String} {s : Swizzle} {pos : Component} (typed : v.ty = .vec size)
    (parsed : Swizzle.parse name = .ok s) (single : s.pattern = [pos])
    (ins : pos.index < size.count) : v.field name = ⟨Ty.float, v.entry pos.index⟩ := by
  have isVec : v.ty.isVector := by rw [typed]; rfl
  have res : s.resultType v.ty = .ok Ty.float := by
    rw [typed]
    simp [Swizzle.resultType, Swizzle.length, Ty.vec, single, ins, Dim.ofCount?, Ty.float]
  simp only [field, isVec, if_true, Swizzle.parse_eq_ok_iff.mp parsed, select, res, single]
  rfl

/-- A component at a place inside the vector. -/
lemma element?_vector (typed : v.ty = .vec size) (ins : place < size.count) :
    v.element? place = some ⟨Ty.float, v.entry place⟩ := by
  obtain ⟨ty, data⟩ := v
  obtain rfl : ty = .vec size := typed
  simp only [element?, entry, component, Ty.vec, ins, dite_true]
  rfl

/-- A constructor of a vector from one float to a component. -/
lemma entry_construct_range {f : Nat → Value A} (floats : ∀ i, (f i).ty = Ty.float)
    (ins : row < size.count) :
    (construct (.vec size) ((List.range size.count).map f)).entry row = (f row).entry 0 := by
  have single (i : Nat) : (f i).entries = [(f i).entry 0] := by
    rw [entries, components, floats]
    rfl
  have all : ((List.range size.count).map f).flatMap entries
      = (List.range size.count).map fun i => (f i).entry 0 := by
    rw [flatMap_map, ← flatMap_pure_eq_map]
    exact flatMap_congr fun i _ => single i
  have inOrder : construct (.vec size) ((List.range size.count).map f)
      = build (.vec size) fun kind col row =>
        (((List.range size.count).map f).flatMap (components kind))[col * 0 + row]?.getD
          (A.zero kind) := by
    cases size <;> rfl
  have generic : (Ty.vec size).isGenericFloat := rfl
  have hasRow : (Ty.vec size).HasRow row := Ty.hasRow_of_lt ins
  rw [inOrder, entry_build generic hasRow (by simp [Ty.vec, Ty.float])]
  show (((List.range size.count).map f).flatMap entries)[0 * 0 + row]?.getD A.real.zero = _
  rw [all]
  simp [ins]

end Value

/-! ## Values related entry by entry -/

namespace Value

variable {A B : Arithmetic}

/-- Two values of one generic float type, of which the second has the entries of the first under a
function. -/
structure Entrywise (φ : A.Real → B.Real) (v : Value A) (w : Value B) : Prop where
  ty : w.ty = v.ty
  generic : v.ty.isGenericFloat = true
  entry : ∀ row, v.ty.HasRow row → w.entry row = φ (v.entry row)

namespace Entrywise

variable {φ : A.Real → B.Real} {v : Value A} {w : Value B} {ty : Ty}

/-- Values are related if they are built from related components. -/
lemma build (generic : ty.isGenericFloat) {fst : (kind : Kind) → (col row : Nat) → kind.Carrier A}
    {snd : (kind : Kind) → (col row : Nat) → kind.Carrier B}
    (rel : ∀ row, ty.HasRow row → snd .float 0 row = φ (fst .float 0 row)) :
    Entrywise φ (build ty fst) (build ty snd) := by
  have known := Ty.kind?_of_generic generic
  refine ⟨(ty_build known).trans (ty_build known).symm, (ty_build known).symm ▸ generic, ?_⟩
  intro row ins
  obtain ⟨size, rfl⟩ := Ty.isGenericFloat_iff.mp generic
  cases size with
  | none => exact rel 0 (Ty.hasRow_zero _)
  | some size =>
    have scal {α : Prop} (h : Ty.plain (some size) .float = Ty.float) : α := by cases h
    rw [entry_build generic ins scal, entry_build generic ins scal]
    exact rel row ins

section

variable (rel : Entrywise φ v w)

include rel

lemma entries : w.entries = v.entries.map φ := by
  obtain ⟨size, typed⟩ := Ty.isGenericFloat_iff.mp rel.generic
  have entries := rel.entry
  unfold Value.entries Value.components
  rw [rel.ty, typed] at *
  cases size with
  | none => exact congrArg (fun x => [x]) (entries 0 (Ty.hasRow_zero _))
  | some size =>
    refine (map_congr_left fun row mem => entries row ?_).trans map_map.symm
    intro oth same
    cases Option.some.inj same
    exact mem_range.mp mem

/-- The components that a selector picks. -/
lemma select {s : Swizzle} (typed : s.resultType v.ty = .ok ty) :
    Entrywise φ (Value.select s v) (Value.select s w) := by
  obtain ⟨size, vTyped⟩ := Ty.isGenericFloat_iff.mp rel.generic
  cases size with
  | none =>
    rw [vTyped] at typed
    cases typed
  | some size =>
    have wTyped : s.resultType w.ty = .ok ty := by rw [rel.ty, typed]
    simp only [Value.select, typed, wTyped]
    rw [vTyped] at typed
    obtain ⟨_, _, ⟨⟩, ins, rfl⟩ := Swizzle.resultType_eq_ok.mp typed
    refine build ?_ fun row _ => ?_
    · split <;> rfl
    · refine rel.entry _ ?_
      rw [vTyped]
      rintro _ ⟨⟩
      cases picked : s.pattern[row]? with
      | none => cases size <;> decide
      | some comp => exact ins comp (mem_of_getElem? picked)

/-- A swizzle. -/
lemma field {name : String}
    (typed : Expr.fieldType v.ty name = .ok ty) : Entrywise φ (v.field name) (w.field name) := by
  obtain ⟨size, vTyped⟩ := Ty.isGenericFloat_iff.mp rel.generic
  cases size with
  | none =>
    rw [vTyped] at typed
    cases typed
  | some size =>
    have isVec : v.ty.isVector := by rw [vTyped]; rfl
    rw [Expr.fieldType, if_pos isVec] at typed
    obtain ⟨s, parsed, sel⟩ := bind_eq_ok.mp typed
    have isVec' : w.ty.isVector := by rw [rel.ty, isVec]
    simp only [Value.field, isVec, isVec', if_true, Swizzle.parse_eq_ok_iff.mp parsed]
    exact rel.select sel

lemma element? {x : Value A} (found : v.element? place = some x) :
    ∃ y, w.element? place = some y ∧ Entrywise φ x y := by
  obtain ⟨ty, data⟩ := v
  obtain ⟨ty', data'⟩ := w
  obtain rfl : ty' = ty := rel.ty
  obtain ⟨size, typed⟩ := Ty.isGenericFloat_iff.mp rel.generic
  subst typed
  cases size with
  | none => cases found
  | some size =>
    have entries := rel.entry
    simp only [Value.element?, Ty.plain] at found ⊢
    split at found
    · next ins =>
      cases found
      rw [dif_pos ins]
      refine ⟨_, rfl, rfl, rfl, fun row _ => ?_⟩
      have same := entries place (Ty.hasRow_of_lt ins)
      simpa only [Value.entry, component, Ty.plain, ins, dite_true] using same
    · cases found

lemma element?_eq_none (outside : v.element? place = none) : w.element? place = none := by
  obtain ⟨ty, data⟩ := v
  obtain ⟨ty', data'⟩ := w
  obtain rfl : ty' = ty := rel.ty
  obtain ⟨size, typed⟩ := Ty.isGenericFloat_iff.mp rel.generic
  subst typed
  cases size with
  | none => rfl
  | some size =>
    simp only [Value.element?, Ty.plain, dite_eq_right_iff, reduceCtorEq, imp_false] at outside ⊢
    exact outside

/-- A component, also where the index is out of range, if what is read there is related. -/
lemma index {I : Interpretation A} {J : Interpretation B} {pos : Value A}
    {pos' : Value B} (typed : v.ty.element? = some ty)
    (places : pos'.place? = pos.place?)
    (beyond : pos.place?.bind v.element? = none →
      J.beyond w pos' .float = φ (I.beyond v pos .float)) :
    Entrywise φ (I.index v pos) (J.index w pos') := by
  have isF : ty = Ty.float := by
    obtain ⟨size, vTyped⟩ := Ty.isGenericFloat_iff.mp rel.generic
    rw [vTyped] at typed
    cases size with
    | none => cases typed
    | some size => exact (Option.some.inj typed).symm
  subst isF
  have typed' : w.ty.element? = some Ty.float := by rw [rel.ty, typed]
  unfold Interpretation.index
  rw [places]
  cases place? : pos.place? with
  | none =>
    simp only [Option.bind_none, typed, typed']
    exact ⟨rfl, rfl, fun _ _ => beyond (by rw [place?, Option.bind_none])⟩
  | some place =>
    simp only [Option.bind_some]
    cases found : v.element? place with
    | none =>
      simp only [rel.element?_eq_none found, typed, typed']
      exact ⟨rfl, rfl, fun _ _ => beyond (by rw [place?, Option.bind_some, found])⟩
    | some x =>
      obtain ⟨y, found', relatedElement⟩ := rel.element? found
      simp only [found']
      exact relatedElement

end

lemma flatMap_entries {vs : List (Value A)} {ws : List (Value B)}
    (rel : Forall₂ (Entrywise φ) vs ws) :
    ws.flatMap Value.entries = (vs.flatMap Value.entries).map φ := by
  induction rel with
  | nil => rfl
  | cons fst _ ih => rw [flatMap_cons, flatMap_cons, map_append, ih, fst.entries]

/-- A constructor takes its components from related arguments, and zero where there are none. -/
lemma construct (zero : φ A.real.zero = B.real.zero) (generic : ty.isGenericFloat)
    {vs : List (Value A)} {ws : List (Value B)} (rel : Forall₂ (Entrywise φ) vs ws) :
    Entrywise φ (Value.construct ty vs) (Value.construct ty ws) := by
  have inOrder (rows : Nat) : Entrywise φ (Value.build ty fun kind col row =>
        (vs.flatMap (Value.components kind))[col * rows + row]?.getD (A.zero kind))
      (Value.build ty fun kind col row =>
        (ws.flatMap (Value.components kind))[col * rows + row]?.getD (B.zero kind)) := by
    refine build generic fun row _ => ?_
    show (ws.flatMap Value.entries)[0 * rows + row]?.getD B.real.zero
      = φ ((vs.flatMap Value.entries)[0 * rows + row]?.getD A.real.zero)
    rw [flatMap_entries rel, getElem?_map]
    cases (vs.flatMap Value.entries)[0 * rows + row]? with
    | none => exact zero.symm
    | some x => rfl
  obtain ⟨size, typed⟩ := Ty.isGenericFloat_iff.mp generic
  subst typed
  cases size with
  | none =>
    cases rel with
    | nil | cons _ _ => exact inOrder 0
  | some size =>
    cases rel with
    | nil => exact inOrder 0
    | @cons v w _ _ fst rest =>
      cases rest with
      | cons _ _ => exact inOrder 0
      | nil =>
        simp only [Value.construct, Ty.plain, fst.ty]
        split
        · next scal =>
          refine build rfl fun row _ => fst.entry row ?_
          intro oth found
          cases typed : v.ty <;> simp_all [Ty.isScalar, Ty.size?]
        · exact inOrder 0

/-! ## Arithmetic -/

lemma negate (comm : ∀ x, φ (A.real.negate x) = B.real.negate (φ x))
    (rel : Entrywise φ v w) : Entrywise φ (unary .negate v) (unary .negate w) := by
  have gen' : w.ty.isGenericFloat := rel.ty ▸ rel.generic
  have sameTy := ty_negate rel.generic
  refine ⟨(ty_negate gen').trans (rel.ty.trans sameTy.symm), sameTy ▸ rel.generic, ?_⟩
  intro row ins
  rw [sameTy] at ins
  rw [entry_negate rel.generic ins, entry_negate gen' (rel.ty ▸ ins), rel.entry row ins, comm]

lemma binary (wise : IsComponentWise op)
    (comm : ∀ x y, φ (A.real.combine op x y) = B.real.combine op (φ x) (φ y)) {v' : Value A}
    {w' : Value B} (fst : Entrywise φ v w) (snd : Entrywise φ v' w')
    (typed : Ty.binary? op v.ty v'.ty = some ty) :
    Entrywise φ (Value.binary op v v') (Value.binary op w w') := by
  have typed' : Ty.binary? op w.ty w'.ty = some ty := by rw [fst.ty, snd.ty, typed]
  obtain ⟨generic, rows⟩ := Ty.binary?_generic wise fst.generic snd.generic typed
  refine ⟨(ty_binary typed').trans (ty_binary typed).symm, (ty_binary typed).symm ▸ generic, ?_⟩
  intro row ins
  rw [ty_binary typed] at ins
  rw [entry_binary wise fst.generic snd.generic typed ins,
    entry_binary wise (fst.ty ▸ fst.generic) (snd.ty ▸ snd.generic) typed' ins,
    fst.entry row (rows row ins).1, snd.entry row (rows row ins).2, comm]

end Entrywise

end Value

end ShaderAlgebra
