import ShaderAlgebra.Proofs.Semantics.Datum
import ShaderAlgebra.Proofs.Semantics.Exact
import ShaderAlgebra.Proofs.Typing.Scopes

/-!
# Soundness of inference

Accepted expressions evaluate. `Expr.compute` is evaluation on data without types: it reads no
annotation, and it is undefined wherever an operation is. Of an accepted tree every node is computed,
and gives a datum of the type that the node is annotated with (`Expr.compute_of_infer`).

For every operation there is one lemma: where the rule of the type checker gives a type, the operation
is defined and gives a datum of that type. The rules and the operations have nothing in common, so
this is what the rules are there for.
-/

namespace ShaderAlgebra

open List Option

variable {A : Arithmetic} {name : String}

namespace Datum

variable {ty left right : Ty} {v w : Datum A} {op : BinaryOp} {a b kind : Kind} {x y : Scalar A}
  {rows cols : Dim} {cs xss : List (List (Scalar A))} {xs ys : List (Scalar A)} {cnt : Nat}
  {tys : List Ty} {vs : List (Datum A)}

/-! ## Operators -/

lemma yields_negate (typed : HasType ty v)
    (num : (ty.isMatrix || ty.kind?.any Kind.isNumeric)) : Yields v.negate ty := by
  have comps {kind : Kind} (num : kind.isNumeric) (x : Scalar A)
      (isKind : x.kind = kind) : ∃ y, x.negate = some y ∧ y.kind = kind := by
    obtain ⟨y, neg, same⟩ := Scalar.exists_negate (isKind ▸ num)
    exact ⟨y, neg, same.trans isKind⟩
  cases ty with
  | scalar kind =>
    obtain ⟨x, rfl, isKind⟩ := exists_scalar typed
    exact .map (comps num x isKind) fun _ same => same
  | vector size kind =>
    obtain ⟨xs, rfl, row⟩ := exists_vector typed
    exact .map (row.mapM (comps num)) fun _ row => row
  | matrix cols rows =>
    obtain ⟨cs, rfl, mat⟩ := exists_matrix typed
    exact .map (mat.mapM fun c row => row.mapM (comps rfl)) fun _ mat => mat
  | _ => cases num

lemma yields_unary {op : UnaryOp} {opd : Ty} (typed : HasType opd v)
    (defined : Ty.unary? op opd = some ty) : Yields (v.unary op) ty := by
  cases op with
  | negate =>
    obtain ⟨rfl, num⟩ := Ty.unary?_eq_some.mp defined
    exact yields_negate typed num
  | not =>
    obtain ⟨rfl, rfl⟩ := Ty.unary?_eq_some.mp defined
    obtain ⟨x, rfl, isBool⟩ := exists_scalar typed
    cases x with
    | bool b => exact ⟨_, rfl, rfl⟩
    | _ => cases isBool

/-- Arithmetic is defined where the kinds of the components meet. -/
lemma yields_arithmetic (tyL : HasType left v) (tyR : HasType right w)
    (defined : Ty.componentWise? left right = some ty) (whole : op = .modulo → ty.kind? = some .int) :
    Yields (arithmetic op v w) ty := by
  have comps {a b kind : Kind} (met : a.unify? b = some kind)
      (whole : op = .modulo → some kind = some .int) (x y : Scalar A) (isLeft : x.kind = a)
      (isRight : y.kind = b) : ∃ z, x.combine op y = some z ∧ z.kind = kind := by
    subst isLeft isRight
    exact Scalar.exists_combine met fun isModulo => Option.some.inj (whole isModulo)
  cases left with
  | scalar a =>
    obtain ⟨x, rfl, isLeft⟩ := exists_scalar tyL
    cases right with
    | scalar b =>
      obtain ⟨y, rfl, isRight⟩ := exists_scalar tyR
      obtain ⟨kind, met, rfl⟩ := map_eq_some_iff.mp defined
      exact .map (comps met whole x y isLeft isRight) fun _ same => same
    | vector size b =>
      obtain ⟨ys, rfl, row⟩ := exists_vector tyR
      obtain ⟨kind, met, rfl⟩ := map_eq_some_iff.mp defined
      exact .map (row.mapM fun y => comps met whole x y isLeft) fun _ row => row
    | matrix cols rows =>
      obtain ⟨cs, rfl, mat⟩ := exists_matrix tyR
      obtain ⟨num, isMat⟩ := ite_none_right_eq_some.mp defined
      cases isMat
      have met := Kind.unify?_float num
      exact .map (mat.mapM fun c row => row.mapM fun y => comps met whole x y isLeft)
        fun _ mat => mat
    | _ => cases defined
  | vector size a =>
    obtain ⟨xs, rfl, row⟩ := exists_vector tyL
    cases right with
    | scalar b =>
      obtain ⟨y, rfl, isRight⟩ := exists_scalar tyR
      obtain ⟨kind, met, rfl⟩ := map_eq_some_iff.mp defined
      rw [Kind.unify?_comm] at met
      exact .map (row.mapM fun x isLeft => comps met whole x y isLeft isRight) fun _ row => row
    | vector size' b =>
      obtain ⟨ys, rfl, row'⟩ := exists_vector tyR
      obtain ⟨rfl, unified⟩ := ite_none_right_eq_some.mp defined
      obtain ⟨kind, met, rfl⟩ := map_eq_some_iff.mp unified
      exact .map (row.zipM row' (comps met whole)) fun _ row => row
    | _ => cases defined
  | matrix cols rows =>
    obtain ⟨cs, rfl, mat⟩ := exists_matrix tyL
    cases right with
    | scalar b =>
      obtain ⟨y, rfl, isRight⟩ := exists_scalar tyR
      obtain ⟨num, isMat⟩ := ite_none_right_eq_some.mp defined
      cases isMat
      have met := (Kind.unify?_comm .float b).trans (Kind.unify?_float num)
      exact .map (mat.mapM fun c row => row.mapM fun x isLeft =>
        comps met whole x y isLeft isRight) fun _ mat => mat
    | matrix cols' rows' =>
      obtain ⟨ds, rfl, mat'⟩ := exists_matrix tyR
      obtain ⟨⟨rfl, rfl⟩, isMat⟩ := ite_none_right_eq_some.mp defined
      cases isMat
      exact .map (mat.zipM mat' fun c d row row' => row.zipM row' (comps rfl whole))
        fun _ mat => mat
    | _ => cases defined
  | _ => cases right <;> cases defined

/-- Two numbers, one of them a float, make a float. -/
lemma exists_float (oth : op ≠ .modulo) (met : a.unify? b = some .float) (isLeft : x.kind = a)
    (isRight : y.kind = b) : ∃ z, x.combine op y = some z ∧ z.kind = .float := by
  subst isLeft isRight
  exact Scalar.exists_combine met fun isModulo => (oth isModulo).elim

lemma exists_product (met : a.unify? b = some .float) (isLeft : x.kind = a) (isRight : y.kind = b) :
    ∃ z, x.combine .multiply y = some z ∧ z.kind = .float :=
  exists_float (by decide) met isLeft isRight

lemma exists_sum (isLeft : x.kind = .float) (isRight : y.kind = .float) :
    ∃ z, x.combine .add y = some z ∧ z.kind = .float :=
  exists_float (by decide) rfl isLeft isRight

lemma exists_combination {rows : Nat} (num : kind.isNumeric) {cols : Nat}
    (mat : Columns cols rows cs) (row : Row cols kind xs) :
    ∃ ys, combination rows cs xs = some ys ∧ Row rows .float ys := by
  have met := (Kind.unify?_comm .float kind).trans (Kind.unify?_float num)
  induction cs generalizing xs cols with
  | nil =>
    obtain rfl := length_eq_zero_iff.mp (row.length.trans mat.length.symm)
    refine ⟨_, rfl, length_replicate, fun y mem => ?_⟩
    rw [eq_of_mem_replicate mem]
    rfl
  | cons c cs ih =>
    obtain rfl : cols = cs.length + 1 := mat.length.symm
    cases xs with
    | nil => cases row.length
    | cons x xs =>
      obtain ⟨isKind, kinds⟩ := forall_mem_cons.mp row.kinds
      obtain ⟨fst, rest⟩ := forall_mem_cons.mp mat.rows
      obtain ⟨scaled, isScaled, rowScaled⟩ := fst.mapM fun y isF =>
        exists_product met isF isKind
      obtain ⟨sum, isSum, rowSum⟩ := ih ⟨rfl, rest⟩ ⟨Nat.succ.inj row.length, kinds⟩
      obtain ⟨ys, isTotal, rowTotal⟩ := rowScaled.zipM rowSum fun y z => exists_sum
      refine ⟨ys, ?_, rowTotal⟩
      simp [combination, isScaled, isSum, isTotal]

lemma exists_dot (num : kind.isNumeric) (left : Row cnt kind xs)
    (right : Row cnt .float ys) : ∃ z, dot xs ys = some z ∧ z.kind = .float := by
  have met := Kind.unify?_float num
  induction xs generalizing ys cnt with
  | nil =>
    obtain rfl := length_eq_zero_iff.mp (right.length.trans left.length.symm)
    exact ⟨_, rfl, rfl⟩
  | cons x xs ih =>
    obtain rfl : cnt = xs.length + 1 := left.length.symm
    cases ys with
    | nil => cases right.length
    | cons y ys =>
      obtain ⟨isKind, kinds⟩ := forall_mem_cons.mp left.kinds
      obtain ⟨isF, floats⟩ := forall_mem_cons.mp right.kinds
      obtain ⟨z, isProd, floatProduct⟩ := exists_product met isKind isF
      obtain ⟨sum, isSum, floatSum⟩ := ih ⟨rfl, kinds⟩ ⟨Nat.succ.inj right.length, floats⟩
      obtain ⟨tot, isTotal, floatTotal⟩ := exists_sum floatProduct floatSum
      exact ⟨tot, by simp [dot, isProd, isSum, isTotal], floatTotal⟩

lemma height_eq {rows : Nat} (mat : Columns cols.count rows cs) : height cs = rows := by
  cases cs with
  | nil => cases cols <;> cases mat.length
  | cons c cs => exact (mat.rows c mem_cons_self).length

/-- A product is defined where the rules say so: that of linear algebra for a matrix beside a vector
or a matrix, else component by component. -/
lemma yields_product (tyL : HasType left v) (tyR : HasType right w)
    (defined : Ty.binary? .multiply left right = some ty) : Yields (product v w) ty := by
  have scaled (notLinear : product v w = arithmetic .multiply v w)
      (defined : Ty.componentWise? left right = some ty) : Yields (product v w) ty :=
    notLinear ▸ yields_arithmetic tyL tyR defined nofun
  cases left with
  | scalar a =>
    obtain ⟨x, rfl, -⟩ := exists_scalar tyL
    cases right <;> exact scaled rfl defined
  | vector size a =>
    obtain ⟨xs, rfl, row⟩ := exists_vector tyL
    cases right with
    | matrix cols rows =>
      obtain ⟨cs, rfl, mat⟩ := exists_matrix tyR
      obtain ⟨⟨rfl, num⟩, isVec⟩ := ite_none_right_eq_some.mp ((or_none).symm.trans defined)
      cases isVec
      refine .map (exists_mapM fun c mem => exists_dot num row (mat.rows c mem)) ?_
      exact fun ys found => ⟨found.1.trans mat.length, found.2⟩
    | scalar b =>
      obtain ⟨y, rfl, -⟩ := exists_scalar tyR
      exact scaled rfl defined
    | vector size' b =>
      obtain ⟨ys, rfl, -⟩ := exists_vector tyR
      exact scaled rfl defined
    | _ => cases defined
  | matrix cols rows =>
    obtain ⟨cs, rfl, mat⟩ := exists_matrix tyL
    cases right with
    | scalar b =>
      obtain ⟨y, rfl, -⟩ := exists_scalar tyR
      exact scaled rfl defined
    | vector size b =>
      obtain ⟨xs, rfl, row⟩ := exists_vector tyR
      obtain ⟨⟨rfl, num⟩, isVec⟩ := ite_none_right_eq_some.mp ((or_none).symm.trans defined)
      cases isVec
      refine .map ?_ fun _ row => row
      rw [height_eq mat]
      exact exists_combination num mat row
    | matrix cols' rows' =>
      obtain ⟨ds, rfl, mat'⟩ := exists_matrix tyR
      obtain ⟨rfl, isMat⟩ := ite_none_right_eq_some.mp ((or_none).symm.trans defined)
      cases isMat
      refine .map ?_ fun _ mat => mat
      rw [height_eq mat]
      exact mat'.mapM fun d row => exists_combination rfl mat row
    | _ => cases defined
  | _ => cases right <;> cases defined

/-! ## Equality -/

lemma exists_sameAll {α : Type} {same : α → α → Option Bool} {xs ys : List α}
    (len : xs.length = ys.length) (each : ∀ x ∈ xs, ∀ y ∈ ys, ∃ b, same x y = some b) :
    ∃ b, sameAll same xs ys = some b := by
  obtain ⟨bs, found, -⟩ : ∃ bs, zipM same xs ys = some bs ∧ bs.length = xs.length ∧ ∀ b ∈ bs, True :=
    exists_zipM len fun x mem y mem' => (each x mem y mem').imp fun _ found => ⟨found, trivial⟩
  exact ⟨bs.all id, by rw [sameAll, found]; rfl⟩

lemma exists_sameRow (left : Row cnt a xs) (right : Row cnt b ys)
    (cmpb : a = b ∨ a = .int ∧ b = .float ∨ a = .float ∧ b = .int) :
    ∃ same, sameRow xs ys = some same := by
  refine exists_sameAll (left.length.trans right.length.symm) fun x mem y mem' => ?_
  refine Scalar.exists_same ?_
  rw [left.kinds x mem, right.kinds y mem']
  exact cmpb

lemma exists_sameElements {xs ys : List (Datum A)} (len : xs.length = ys.length)
    (each : ∀ x ∈ xs, ∀ y ∈ ys, ∃ b, same x y = some b) : ∃ b, sameElements xs ys = some b := by
  induction xs generalizing ys with
  | nil =>
    obtain rfl := length_eq_zero_iff.mp len.symm
    exact ⟨true, rfl⟩
  | cons x xs ih =>
    cases ys with
    | nil => cases len
    | cons y ys =>
      obtain ⟨a, fst⟩ := each x mem_cons_self y mem_cons_self
      obtain ⟨b, rest⟩ := ih (Nat.succ.inj len) fun x mem y mem' =>
        each x (mem_cons_of_mem _ mem) y (mem_cons_of_mem _ mem')
      exact ⟨a && b, by simp [sameElements, fst, rest]⟩

mutual

/-- Two data of one type can be compared. -/
lemma exists_same : (ty : Ty) → ∀ {v w : Datum A}, HasType ty v → HasType ty w →
    ∃ b, same v w = some b
  | .scalar kind, v, w, left, right => by
    obtain ⟨x, rfl, rfl⟩ := exists_scalar left
    obtain ⟨y, rfl, isKind⟩ := exists_scalar right
    exact Scalar.exists_same (.inl isKind.symm)
  | .vector size kind, v, w, left, right => by
    obtain ⟨xs, rfl, row⟩ := exists_vector left
    obtain ⟨ys, rfl, row'⟩ := exists_vector right
    exact exists_sameRow row row' (.inl rfl)
  | .matrix cols rows, v, w, left, right => by
    obtain ⟨cs, rfl, mat⟩ := exists_matrix left
    obtain ⟨ds, rfl, mat'⟩ := exists_matrix right
    exact exists_sameAll (mat.length.trans mat'.length.symm) fun c mem d mem' =>
      exists_sameRow (mat.rows c mem) (mat'.rows d mem') (.inl rfl)
  | .array base size, v, w, left, right => by
    obtain ⟨xs, rfl, len, each⟩ := exists_array left
    obtain ⟨ys, rfl, len', each'⟩ := exists_array right
    exact exists_sameElements (len.trans len'.symm) fun x mem y mem' =>
      exists_same base (each x mem) (each' y mem')
  | .struct name mems, v, w, left, right => by
    obtain ⟨xs, rfl, tys⟩ := exists_struct left
    obtain ⟨ys, rfl, tys'⟩ := exists_struct right
    rw [same, if_pos rfl]
    exact exists_sameMembers mems tys tys'
  | .void, v, _, left, _
  | .function .., v, _, left, _ | .unknown, v, _, left, _ => by cases v <;> exact left.elim

lemma exists_sameMembers : (mems : List (String × Ty)) → ∀ {xs ys : List (String × Datum A)},
    HaveTypes mems xs → HaveTypes mems ys → ∃ b, sameMembers xs ys = some b
  | [], [], [], _, _ => ⟨true, rfl⟩
  | [], _ :: _, _, left, _ => left.elim
  | [], [], _ :: _, _, right => right.elim
  | _ :: _, [], _, left, _ => left.elim
  | _ :: _, _ :: _, [], _, right => right.elim
  | (name, ty) :: mems, (_, x) :: xs, (_, y) :: ys, ⟨own, fst, rest⟩, ⟨own', fst', rest'⟩ => by
    obtain ⟨a, equal⟩ := exists_same ty fst fst'
    obtain ⟨b, equals⟩ := exists_sameMembers mems rest rest'
    exact ⟨a && b, by simp [sameMembers, own, own', equal, equals]⟩

end

/-- So can a datum of integers and one of floats of the same shape. -/
lemma exists_same_of_areComparable (tyL : HasType left v) (tyR : HasType right w)
    (cmpb : Ty.areComparable left right) : ∃ b, same v w = some b := by
  have mixed {size : Option Dim} {a b : Kind} (kinds : a = .int ∧ b = .float ∨ a = .float ∧ b = .int)
      (tyL : HasType (.plain size a) v) (tyR : HasType (.plain size b) w) :
      ∃ b, same v w = some b := by
    cases size with
    | none =>
      obtain ⟨x, rfl, rfl⟩ := exists_scalar tyL
      obtain ⟨y, rfl, rfl⟩ := exists_scalar tyR
      exact Scalar.exists_same (.inr kinds)
    | some size =>
      obtain ⟨xs, rfl, row⟩ := exists_vector tyL
      obtain ⟨ys, rfl, row'⟩ := exists_vector tyR
      exact exists_sameRow row row' (.inr kinds)
  simp only [Ty.areComparable, Bool.and_eq_true, Bool.or_eq_true, Ty.convertsTo_iff] at cmpb
  rcases cmpb.2 with (rfl | ⟨size, rfl, rfl⟩) | (rfl | ⟨size, rfl, rfl⟩)
  · exact exists_same _ tyL tyR
  · exact mixed (.inl ⟨rfl, rfl⟩) tyL tyR
  · exact exists_same _ tyL tyR
  · exact mixed (.inr ⟨rfl, rfl⟩) tyL tyR

lemma yields_compare (tyL : HasType (.scalar a) v) (tyR : HasType (.scalar b) w)
    (met : a.unify? b = some kind) : Yields (compare op v w) .bool := by
  obtain ⟨x, rfl, rfl⟩ := exists_scalar tyL
  obtain ⟨y, rfl, rfl⟩ := exists_scalar tyR
  refine .map (P := fun _ => True) ?_ fun _ _ => rfl
  exact (Scalar.exists_compare op met).imp fun _ found => ⟨found, trivial⟩

lemma exists_bool (typed : HasType .bool v) : ∃ b, v = ofBool b := by
  obtain ⟨x, rfl, isBool⟩ := exists_scalar typed
  cases x with
  | bool b => exact ⟨b, rfl⟩
  | _ => cases isBool

/-- A binary operator is defined where the rules say so. -/
lemma yields_binary (tyL : HasType left v) (tyR : HasType right w)
    (defined : Ty.binary? op left right = some ty) : Yields (binary op v w) ty := by
  cases op with
  | add | subtract | divide => exact yields_arithmetic tyL tyR defined nofun
  | modulo =>
    obtain ⟨typed, whole⟩ := filter_eq_some_iff.mp defined
    exact yields_arithmetic tyL tyR typed fun _ => by simpa using whole
  | multiply => exact yields_product tyL tyR defined
  | less | lessEqual | greater | greaterEqual =>
    cases left with
    | scalar a =>
      cases right with
      | scalar b =>
        obtain ⟨kind, met, rfl⟩ := map_eq_some_iff.mp defined
        exact yields_compare tyL tyR met
      | _ => cases defined
    | _ => cases right <;> cases defined
  | equal | notEqual =>
    obtain ⟨cmpb, isBool⟩ := ite_none_right_eq_some.mp defined
    cases isBool
    refine .map (P := fun _ => True) ?_ fun _ _ => rfl
    exact (exists_same_of_areComparable tyL tyR cmpb).imp fun _ found => ⟨found, trivial⟩
  | logicalAnd | logicalOr =>
    obtain ⟨⟨rfl, rfl⟩, isBool⟩ := ite_none_right_eq_some.mp defined
    cases isBool
    obtain ⟨a, rfl⟩ := exists_bool tyL
    obtain ⟨b, rfl⟩ := exists_bool tyR
    exact ⟨_, rfl, rfl⟩

/-! ## Parts -/

lemma yields_memberOf : {mems : List (String × Ty)} →
    {xs : List (String × Datum A)} → HaveTypes mems xs → mems.lookup name = some ty →
    Yields (memberOf name xs) ty
  | [], _, _, found => by cases found
  | _ :: _, [], tys, _ => tys.elim
  | (own, fst) :: mems, (_, x) :: xs, ⟨rfl, typed, tys⟩, found => by
    rw [lookup_cons] at found
    rw [memberOf]
    split at found
    · next same =>
      cases found
      rw [if_pos (by simpa using same)]
      exact ⟨x, rfl, typed⟩
    · next oth =>
      rw [if_neg (by simpa using oth)]
      exact yields_memberOf tys found

lemma ofComponents_hasType (kinds : ∀ x ∈ xs, x.kind = kind) (some_ : 0 < xs.length)
    (few : xs.length ≤ 4) :
    HasType (match Dim.ofCount? xs.length with
      | some size => .vector size kind
      | none => .scalar kind) (ofComponents xs) := by
  match xs, kinds, some_, few with
  | [x], kinds, _, _ => exact kinds x mem_cons_self
  | [_, _], kinds, _, _ | [_, _, _], kinds, _, _ | [_, _, _, _], kinds, _, _ => exact ⟨rfl, kinds⟩

/-- The components that the letters of a selector pick. -/
lemma yields_selection {selector : Swizzle} {size : Dim} (row : Row size.count kind xs)
    (parsed : Swizzle.parse? name = some selector)
    (fits : selector.resultType (.vector size kind) = .ok ty) :
    Yields (field name (.vector xs)) ty := by
  obtain ⟨_, _, ⟨⟩, ins, rfl⟩ := Swizzle.resultType_eq_ok.mp fits
  have within : ∀ comp ∈ selector.pattern, ∃ x, xs[comp.index]? = some x ∧ x.kind = kind := by
    intro comp mem
    have small : comp.index < xs.length := row.length ▸ ins comp mem
    exact ⟨_, getElem?_eq_getElem small, row.kinds _ (getElem_mem small)⟩
  obtain ⟨picked, isPicked, len, kinds⟩ := exists_mapM within
  obtain ⟨-, some_, few⟩ := Swizzle.parse?_eq_some.mp parsed
  have typed := ofComponents_hasType kinds (len ▸ some_) (len ▸ few)
  rw [len] at typed
  exact ⟨ofComponents picked, by simp [field, parsed, isPicked], typed⟩

lemma yields_field {base : Ty} (typed : HasType base v) (fits : Expr.fieldType base name = .ok ty)
    : Yields (v.field name) ty := by
  cases base with
  | vector size kind =>
    obtain ⟨xs, rfl, row⟩ := exists_vector typed
    obtain ⟨selector, parsed, fits⟩ := bind_eq_ok.mp fits
    exact yields_selection row (Swizzle.parse_eq_ok_iff.mp parsed) fits
  | struct structName mems =>
    obtain ⟨xs, rfl, tys⟩ := exists_struct typed
    simp only [Expr.fieldType, Ty.isVector, Ty.member?, Bool.false_eq_true, if_false] at fits
    split at fits
    · next found =>
      cases fits
      exact yields_memberOf tys found
    · cases fits
  | _ => cases fits

lemma yields_element? {base : Ty} {place : Nat} (typed : HasType base v)
    (fits : base.element? = some ty) (ins : place < v.extent) : Yields (v.element? place) ty := by
  cases base with
  | vector size kind =>
    obtain ⟨xs, rfl, row⟩ := exists_vector typed
    cases fits
    exact ⟨.scalar xs[place], by rw [element?, getElem?_eq_getElem ins]; rfl,
      row.kinds _ (getElem_mem ins)⟩
  | matrix cols rows =>
    obtain ⟨cs, rfl, mat⟩ := exists_matrix typed
    cases fits
    exact ⟨.vector cs[place], by rw [element?, getElem?_eq_getElem ins]; rfl,
      mat.rows _ (getElem_mem ins)⟩
  | array base size =>
    obtain ⟨xs, rfl, -, each⟩ := exists_array typed
    cases fits
    exact ⟨_, getElem?_eq_getElem ins, each _ (getElem_mem ins)⟩
  | _ => cases fits

/-! ## Constructors -/

lemma exists_scalars (typed : HasType ty v) (counted : ty.componentCount? = some cnt) :
    ∃ xs, v.scalars? = some xs ∧ xs.length = cnt := by
  cases ty with
  | scalar kind =>
    obtain ⟨x, rfl, -⟩ := exists_scalar typed
    cases counted
    exact ⟨[x], rfl, rfl⟩
  | vector size kind =>
    obtain ⟨xs, rfl, row⟩ := exists_vector typed
    cases counted
    exact ⟨xs, rfl, row.length⟩
  | matrix cols rows =>
    obtain ⟨cs, rfl, mat⟩ := exists_matrix typed
    cases counted
    refine ⟨cs.flatten, rfl, ?_⟩
    have lengths : cs.map List.length = List.replicate cols.count rows.count := by
      rw [eq_replicate_iff, length_map]
      refine ⟨mat.length, fun n mem => ?_⟩
      obtain ⟨c, ins, rfl⟩ := List.mem_map.mp mem
      exact (mat.rows c ins).length
    rw [length_flatten, lengths, sum_replicate_nat]
  | _ => cases counted

/-- The arguments of a constructor bring the components that their types have. -/
lemma exists_allScalars {tot : Nat} (typed : Forall₂ HasType tys vs)
    (counted : Ty.totalComponents? tys = some tot) :
    ∃ xss, vs.mapM scalars? = some xss ∧ xss.flatten.length = tot := by
  induction typed generalizing tot with
  | nil =>
    cases counted
    exact ⟨[], rfl, rfl⟩
  | cons fst _ ih =>
    simp only [Ty.totalComponents?, bind_eq_bind, bind_eq_some_iff] at counted
    obtain ⟨cnt, own, rest, others, isTotal⟩ := counted
    cases isTotal
    obtain ⟨xs, is1, len⟩ := exists_scalars fst own
    obtain ⟨xss, isRest, lengths⟩ := ih others
    refine ⟨xs :: xss, by simp [mapM_cons, is1, isRest], ?_⟩
    simp [len, ← lengths]

lemma tabulate_hasType {entry : Nat → Nat → Scalar A}
    (floats : ∀ col < cols.count, ∀ row < rows.count, (entry col row).kind = .float) :
    HasType (.matrix cols rows) (tabulate cols.count rows.count entry) := by
  refine ⟨by simp, fun c mem => ?_⟩
  obtain ⟨col, ins, rfl⟩ := List.mem_map.mp mem
  refine ⟨by simp, fun x mem => ?_⟩
  obtain ⟨row, ins', rfl⟩ := List.mem_map.mp mem
  exact floats col (mem_range.mp ins) row (mem_range.mp ins')

lemma kind_diagonal (isF : x.kind = .float) (col row : Nat) :
    (diagonal x col row).kind = .float := by
  unfold diagonal
  split
  · exact isF
  · rfl

lemma yields_vectorOf {size : Dim} (gath : vs.mapM scalars? = some xss)
    (enough : size.count ≤ xss.flatten.length) :
    Yields (vectorOf size kind vs) (.vector size kind) := by
  simp only [vectorOf, gath, bind_eq_bind, bind_some, if_pos enough]
  refine ⟨_, rfl, ?_, fun x mem => ?_⟩
  · rw [length_map, length_take]
    exact Nat.min_eq_left enough
  · obtain ⟨y, -, rfl⟩ := List.mem_map.mp mem
    exact y.kind_convert kind

lemma yields_matrixOf (gath : vs.mapM scalars? = some xss)
    (len : xss.flatten.length = cols.count * rows.count) :
    Yields (matrixOf cols rows vs) (.matrix cols rows) := by
  simp only [matrixOf, gath, bind_eq_bind, bind_some, if_pos len]
  refine ⟨_, rfl, by simp, fun c mem => ?_⟩
  obtain ⟨col, ins, rfl⟩ := List.mem_map.mp mem
  refine ⟨?_, fun x mem => ?_⟩
  · have bound : (col + 1) * rows.count ≤ cols.count * rows.count :=
      Nat.mul_le_mul_right _ (mem_range.mp ins)
    rw [Nat.succ_mul] at bound
    simp only [length_map, length_take, length_drop, len]
    omega
  · obtain ⟨y, -, rfl⟩ := List.mem_map.mp mem
    exact y.kind_convert .float

lemma yields_diagonal (x : Scalar A) :
    Yields (construct (.matrix cols rows) [.scalar x]) (.matrix cols rows) :=
  ⟨_, rfl, tabulate_hasType fun col _ row _ => kind_diagonal (x.kind_convert _) col row⟩

/-- A matrix is made of another with the entries that the other has, and else the identity. -/
lemma yields_resized {cols' rows' : Dim} (given : Columns cols'.count rows'.count cs) :
    Yields (construct (.matrix cols rows) [.matrix cs]) (.matrix cols rows) := by
  refine ⟨_, rfl, tabulate_hasType fun col _ row _ => ?_⟩
  cases found : cs[col]?.bind (·[row]?) with
  | none => exact kind_diagonal rfl col row
  | some x =>
    obtain ⟨c, isColumn, isEntry⟩ := bind_eq_some_iff.mp found
    exact (given.rows c (mem_of_getElem? isColumn)).kinds x (mem_of_getElem? isEntry)

lemma yields_construct_scalar (typed : HasType ty v) (counted : ty.componentCount? = some cnt) :
    Yields (construct (.scalar kind) [v]) (.scalar kind) := by
  obtain ⟨xs, gath, len⟩ := exists_scalars typed counted
  have pos : 0 < cnt := by
    cases ty with
    | scalar => cases counted; decide
    | vector size => cases counted; cases size <;> decide
    | matrix cols rows => cases counted; cases cols <;> cases rows <;> decide
    | _ => cases counted
  obtain ⟨x, rest, rfl⟩ := exists_cons_of_length_pos (len.symm ▸ pos)
  exact ⟨.scalar (x.convert kind), by simp [construct, gath], x.kind_convert kind⟩

/-- A constructor is defined where the rules say so. -/
lemma yields_construct (typed : Forall₂ HasType tys vs)
    (acc : ty.construct tys = .ok ()) : Yields (construct ty vs) ty := by
  obtain ⟨wanted, tot, needs, counted, takes⟩ := Ty.construct_eq_ok.mp acc
  obtain ⟨xss, gath, len⟩ := exists_allScalars typed counted
  have all (same : tot = wanted) : xss.flatten.length = wanted := len.trans same
  rcases typed with _ | ⟨fst, _ | ⟨snd, rest⟩⟩
  · exact takes.elim
  · rename_i x v
    obtain ⟨cnt, own, isTotal⟩ : ∃ cnt, x.componentCount? = some cnt ∧ tot = cnt := by
      simpa [Ty.totalComponents?, eq_comm] using counted
    cases ty with
    | scalar kind => exact yields_construct_scalar fst own
    | vector size kind =>
      cases needs
      cases x with
      | scalar given =>
        obtain ⟨y, rfl, -⟩ := exists_scalar fst
        refine ⟨_, rfl, length_replicate, fun z mem => ?_⟩
        rw [eq_of_mem_replicate mem]
        exact y.kind_convert kind
      | vector size' given =>
        obtain ⟨ys, rfl, row⟩ := exists_vector fst
        cases own
        refine yields_vectorOf gath ?_
        rcases takes with longer | ⟨-, same⟩
        · rw [len, isTotal]
          simpa [Ty.constructsFromOne] using longer
        · exact (all same).ge
      | matrix cols rows =>
        rcases takes with cut | ⟨oth, -⟩
        · cases cut
        · cases oth
      | _ => cases own
    | matrix cols rows =>
      cases needs
      cases x with
      | scalar given =>
        obtain ⟨y, rfl, -⟩ := exists_scalar fst
        exact yields_diagonal y
      | vector size given =>
        obtain ⟨ys, rfl, -⟩ := exists_vector fst
        rcases takes with cut | ⟨-, same⟩
        · cases cut
        · exact yields_matrixOf gath (all same)
      | matrix cols' rows' =>
        obtain ⟨cs, rfl, given⟩ := exists_matrix fst
        exact yields_resized given
      | _ => cases own
    | _ => cases needs
  · rename_i v _ w _ vs
    obtain ⟨notSc, -, same⟩ := takes
    cases ty with
    | scalar => cases notSc
    | vector size kind =>
      cases needs
      have sev : construct (.vector size kind) (v :: w :: vs)
          = vectorOf size kind (v :: w :: vs) := by
        cases v <;> rfl
      rw [sev]
      exact yields_vectorOf gath (all same).ge
    | matrix cols rows =>
      cases needs
      have sev : construct (.matrix cols rows) (v :: w :: vs)
          = matrixOf cols rows (v :: w :: vs) := by
        cases v <;> rfl
      rw [sev]
      exact yields_matrixOf gath (all same)
    | _ => cases needs

/-! ## Struct constructors -/

lemma promote_hasType {src tgt : Ty} (typed : HasType src v)
    (conv : src.convertsTo tgt) : HasType tgt (v.promote tgt) := by
  have kept {x : Scalar A} {kind : Kind} (isKind : x.kind = kind) (notInt : kind ≠ .int) :
      x.promote.kind = kind := by
    cases x with
    | int => exact (notInt isKind.symm).elim
    | _ => exact isKind
  have promoted {x : Scalar A} (isInt : x.kind = .int) : x.promote.kind = .float := by
    cases x with
    | int => rfl
    | _ => cases isInt
  rcases Ty.convertsTo_iff.mp conv with rfl | ⟨size, rfl, rfl⟩
  · cases src with
    | scalar kind =>
      obtain ⟨x, rfl, isKind⟩ := exists_scalar typed
      cases kind with
      | float => exact kept isKind nofun
      | _ => exact isKind
    | vector size kind =>
      obtain ⟨xs, rfl, row⟩ := exists_vector typed
      cases kind with
      | float => exact row.map fun x isKind => kept isKind nofun
      | _ => exact row
    | _ => exact typed
  · cases size with
    | none =>
      obtain ⟨x, rfl, isInt⟩ := exists_scalar typed
      exact promoted isInt
    | some size =>
      obtain ⟨xs, rfl, row⟩ := exists_vector typed
      exact row.map fun x => promoted

lemma exists_assemble : {mems : List (String × Ty)} → {tys : List Ty} → {vs : List (Datum A)} →
    Forall₂ HasType tys vs → mems.length = tys.length →
    ((mems.zip tys).all fun ((_, member), ty) => ty.convertsTo member) →
    ∃ xs, assemble mems vs = some xs ∧ HaveTypes mems xs
  | [], [], _, .nil, _, _ => ⟨[], rfl, trivial⟩
  | [], _ :: _, _, _, len, _ | _ :: _, [], _, _, len, _ => nomatch len
  | (name, member) :: mems, ty :: tys, v :: vs, .cons fst rest, len, conv => by
    simp only [zip_cons_cons, all_cons, Bool.and_eq_true] at conv
    obtain ⟨xs, found, tys⟩ := exists_assemble rest (Nat.succ.inj len) conv.2
    exact ⟨(name, v.promote member) :: xs, by simp [assemble, found], rfl,
      promote_hasType fst conv.1, tys⟩

/-- A struct constructor is defined where the rules say so. -/
lemma yields_constructStruct (typed : Forall₂ HasType tys vs)
    (acc : ty.constructStruct tys = .ok ()) : Yields (constructStruct ty vs) ty := by
  obtain ⟨name, mems, rfl, len, conv⟩ := Ty.constructStruct_eq_ok.mp acc
  exact .map (exists_assemble typed len conv) fun _ tys => ⟨rfl, tys⟩

end Datum

/-! ## Evaluation -/

namespace Expr

variable {e : Expr}

/-- What evaluation knows besides the tree: the values of variables, and the declared structs. -/
structure Surroundings (A : Arithmetic) where
  read : String → Option (Datum A)
  struct? : String → Option Ty

mutual

/-- The value of a tree, if it has one. No annotation is read. The right operand of `&&` and `||` is
not looked at if the left one decides. -/
def compute (S : Surroundings A) : Expr → Option (Datum A)
  | .literal value _ => some (.scalar (.ofLiteral value))
  | .ident name _ => S.read name
  | .field base name _ => do (← compute S base).field name
  | .index base position _ => do
    let v ← compute S base
    let place ← (← compute S position).place?
    v.element? place
  | .unary op operand _ => do (← compute S operand).unary op
  | .binary op left right _ => do
    let v ← compute S left
    match op, v with
    | .logicalAnd, .scalar (.bool false) => return .ofBool false
    | .logicalOr, .scalar (.bool true) => return .ofBool true
    | op, v => v.binary op (← compute S right)
  | .call function arguments _ => do
    let vs ← computeAll S arguments
    match Ty.ofName? function with
    | some ty => Datum.construct ty vs
    | none => Datum.constructStruct (← S.struct? function) vs
  | .conditional condition accept reject _ => do
    match ← compute S condition with
    | .scalar (.bool true) => compute S accept
    | .scalar (.bool false) => compute S reject
    | _ => none
  | .assign .. => none

def computeAll (S : Surroundings A) : List Expr → Option (List (Datum A))
  | [] => some []
  | e :: es => do return (← compute S e) :: (← computeAll S es)

end

/-- The node is no assignment and no call of a function: what is called is a type or a struct. -/
def Constructs (site : Site) : Expr → Prop
  | .call function _ _ =>
    (Ty.ofName? function).isSome = true ∨ (site.symbols.structType? function).isSome = true
  | .assign .. => False
  | _ => True

/-- The indices in a tree mean elements of what they are used on. -/
def IndicesValid (S : Surroundings A) (e : Expr) : Prop :=
  ∀ base position ty, Within (.index base position ty) e → ∀ v w, base.compute S = some v →
    position.compute S = some w → ∃ place, w.place? = some place ∧ place < v.extent

lemma IndicesValid.part {S : Surroundings A} {part : Expr} (ins : e.IndicesValid S)
    (mem : part ∈ e.children) : part.IndicesValid S :=
  fun base pos ty within => ins base pos ty (.part mem within)

/-- The nodes of an inferred tree are what inference gives for nodes of the tree. -/
lemma exists_infer_of_within {site : Site} {t s : Expr} (inf : e.infer site = .ok t)
    (ins : Within s t) : ∃ s₀, Within s₀ e ∧ s₀.infer site = .ok s := by
  induction ins generalizing e with
  | root => exact ⟨e, .root, inf⟩
  | part mem _ ih =>
    obtain ⟨-, parts, -⟩ := infer_fits inf
    obtain ⟨i, hi, rfl⟩ := mem_iff_getElem.mp mem
    have hi' : i < e.children.length := parts.length_eq ▸ hi
    obtain ⟨s₀, within, found⟩ := ih (parts.get hi' hi)
    exact ⟨s₀, .part (getElem_mem hi') within, found⟩

lemma Constructs.of_head {site : Site} {t : Expr} (same : e.head = t.head)
    (ctds : e.Constructs site) : t.Constructs site := by
  cases e <;> cases t <;> cases same <;> exact ctds

open Datum

variable {site : Site} {read : String → Option (Datum A)}

lemma yields_computeAll {S : Surroundings A} {es : List Expr}
    (each : ∀ e ∈ es, Yields (e.compute S) e.ty) :
    ∃ vs, computeAll S es = some vs ∧ Forall₂ HasType (es.map Expr.ty) vs := by
  induction es with
  | nil => exact ⟨[], rfl, .nil⟩
  | cons e es ih =>
    obtain ⟨v, fst, typed⟩ := each e mem_cons_self
    obtain ⟨vs, rest, tys⟩ := ih fun e mem => each e (mem_cons_of_mem _ mem)
    exact ⟨v :: vs, by simp [computeAll, fst, rest], .cons typed tys⟩

/-- An annotated tree is computed. -/
lemma IsAnnotated.yields_compute (ann : e.IsAnnotated site)
    (ctds : ∀ s, Within s e → s.Constructs site)
    (reads : ∀ name ty, Within (.ident name ty) e → Yields (read name) ty)
    (ins : e.IndicesValid ⟨read, site.symbols.structType?⟩) :
    Yields (e.compute ⟨read, site.symbols.structType?⟩) e.ty := by
  induction e using Expr.induction with
  | node e ih =>
    have fits := ann.fits
    have part {p : Expr} (mem : p ∈ e.children) :
        Yields (p.compute ⟨read, site.symbols.structType?⟩) p.ty :=
      ih p mem (ann.part mem) (fun s within => ctds s (.part mem within))
        (fun name ty within => reads name ty (.part mem within)) (ins.part mem)
    cases e with
    | literal val ty =>
      obtain rfl : ty = .scalar val.kind := fits
      exact ⟨_, rfl, Scalar.kind_ofLiteral val⟩
    | ident name ty => exact reads name ty .root
    | field base name ty =>
      obtain ⟨v, comp, typed⟩ := part mem_base
      rw [compute, comp]
      exact yields_field typed fits
    | index base pos ty =>
      obtain ⟨v, comp, typed⟩ := part mem_indexed
      obtain ⟨w, comp', -⟩ := part mem_position
      obtain ⟨place, found, small⟩ := ins base pos ty .root v w comp comp'
      simp only [compute, comp, comp', found, bind_eq_bind, bind_some]
      exact yields_element? typed fits.2 small
    | unary op opd ty =>
      obtain ⟨v, comp, typed⟩ := part mem_operand
      rw [compute, comp]
      exact yields_unary typed fits
    | binary op left right ty =>
      obtain ⟨v, comp, typed⟩ := part mem_left
      obtain ⟨w, comp', typed'⟩ := part mem_right
      simp only [compute, comp, comp', bind_eq_bind, bind_some]
      split
      · exact ⟨_, rfl, Ty.binary?_eq_bool rfl fits ▸ rfl⟩
      · exact ⟨_, rfl, Ty.binary?_eq_bool rfl fits ▸ rfl⟩
      · exact yields_binary typed typed' fits
    | call fn args ty =>
      obtain ⟨vs, comp, typed⟩ : ∃ vs, computeAll ⟨read, site.symbols.structType?⟩ args = some vs
            ∧ Forall₂ HasType (args.map Expr.ty) vs :=
        yields_computeAll fun e mem => part mem
      simp only [compute, comp, bind_eq_bind, bind_some]
      cases named : Ty.ofName? fn with
      | some ctd =>
        obtain ⟨rfl, acc⟩ := fits.constructor named
        exact yields_construct typed acc
      | none =>
        obtain ⟨decl, isSt⟩ : ∃ decl, site.symbols.structType? fn = some decl :=
          isSome_iff_exists.mp <| (ctds _ .root).resolve_left (by simp [named])
        simp only [Site.Fits, Site.callType_eq_ok, named, isSt] at fits
        obtain ⟨acc, rfl⟩ := fits
        simp only [isSt, bind_some]
        exact yields_constructStruct typed acc
    | conditional cond accept rej ty =>
      obtain ⟨isBool, same, rfl⟩ := fits
      obtain ⟨v, comp, typed⟩ := part mem_condition
      obtain ⟨b, rfl⟩ := exists_bool (isBool ▸ typed)
      simp only [compute, comp, bind_eq_bind, bind_some]
      cases b with
      | true => exact part mem_accept
      | false => exact same ▸ part mem_reject
    | assign op tgt val ty => exact (ctds _ .root).elim

/-- Inference is sound. In a tree of literals, variables, fields, elements, operators, constructors
and conditionals that is accepted, every node has a value wherever variables have values of their
declared types and indices are in range, and it is a value of the type of the node. -/
theorem compute_of_infer {e t : Expr} (inferred : e.infer site = .ok t)
    (constructs : ∀ s, Within s e → s.Constructs site)
    (reads : ∀ name old ty, Within (.ident name old) e → site.symbols.lookup name = some ty →
      ∃ v, read name = some v ∧ HasType ty v) :
    ∀ n, Within n t → n.IndicesValid ⟨read, site.symbols.structType?⟩ →
      ∃ v, n.compute ⟨read, site.symbols.structType?⟩ = some v ∧ HasType n.ty v := by
  intro n inside indexes
  have annotated := (isAnnotated_of_infer inferred).within inside
  refine annotated.yields_compute (fun s within => ?_) (fun name ty within => ?_) indexes
  · obtain ⟨s₀, within₀, found⟩ := exists_infer_of_within inferred (within.trans inside)
    exact (constructs s₀ within₀).of_head (infer_fits found).1
  · obtain ⟨s₀, within₀, found⟩ := exists_infer_of_within inferred (within.trans inside)
    obtain ⟨same, -, known⟩ := infer_fits found
    cases s₀ with
    | ident name' old =>
      cases same
      exact reads name old ty within₀ known
    | _ => cases same

/-- A struct `Ray { float length; vec2 way; }` and variables `int i`, `mat2 m` and `vec2 v`. -/
def raySite : Site :=
  let table := SymbolTable.empty.declareStruct ⟨"Ray", [("length", .float), ("way", .vec .two)]⟩
  ⟨table.declareAll [("i", .int), ("m", .mat .two), ("v", .vec .two)], none⟩

/-- `Ray(i, m * v).way` -/
def rayWay : Expr :=
  let product : Expr := .binary .multiply (.ident "m" (.mat .two)) (.ident "v" (.vec .two)) (.vec .two)
  let ray : Expr := .call "Ray" [.ident "i" .int, product]
    (.struct "Ray" [("length", .float), ("way", .vec .two)])
  .field ray "way" (.vec .two)

/-- One for `i`, a matrix of ones for `m` and a vector of ones for `v`. -/
def rayRead (u : Unspecified) : String → Option (Datum (.exact u)) := fun name =>
  let one : Scalar (.exact u) := .float (1 : Rat)
  if name = "i" then some (.scalar (.int (1 : Int)))
  else if name = "m" then some (.matrix [[one, one], [one, one]])
  else if name = "v" then some (.vector [one, one])
  else none

lemma rayRead_yields (u : Unspecified) {ty : Ty} (found : raySite.symbols.lookup name = some ty) :
    Yields (rayRead u name) ty := by
  have wf := SymbolTable.wellFormed_declareStruct SymbolTable.wellFormed_empty
    ⟨"Ray", [("length", .float), ("way", .vec .two)]⟩
  have ones : Row Dim.two.count .float [(.float (1 : Rat) : Scalar (.exact u)), .float (1 : Rat)] :=
    ⟨rfl, by simp [Scalar.kind]⟩
  rcases SymbolTable.lookup_declareAll wf found with decl | outside
  · simp only [mem_cons, not_mem_nil, or_false, Prod.mk.injEq] at decl
    rcases decl with ⟨rfl, rfl⟩ | ⟨rfl, rfl⟩ | ⟨rfl, rfl⟩
    · exact ⟨_, rfl, rfl⟩
    · exact ⟨_, rfl, rfl, by simpa using ones⟩
    · exact ⟨_, rfl, ones⟩
  · cases outside

/-- `Ray(i, m * v).way[i]` is a `float`: the integer `i` becomes the length of the ray, the matrix
meets the vector, and the index is inside of the member. -/
theorem compute_rayWay_element :
    let u : Unspecified := ⟨fun a => a, fun a => a, fun a => a, 0, 0⟩
    let e : Expr := .index rayWay (.ident "i" .int) .float
    ∃ v, e.compute ⟨rayRead u, raySite.symbols.structType?⟩ = some v ∧ HasType .float v := by
  intro u e
  have inferred : e.infer raySite = .ok e := rfl
  have constructs : ∀ s, Within s e → s.Constructs raySite := by
    have struct : (raySite.symbols.structType? "Ray").isSome = true := rfl
    simp [← mem_nodes, e, rayWay, nodes, nodesOfAll, Constructs, struct]
  refine compute_of_infer inferred constructs (fun name old ty _ => rayRead_yields u) e .root ?_
  intro base position ty within v w computed computed'
  obtain ⟨rfl, rfl, rfl⟩ : base = rayWay ∧ position = .ident "i" .int ∧ ty = .float := by
    simpa [← mem_nodes, e, rayWay, nodes, nodesOfAll] using within
  cases computed
  cases computed'
  exact ⟨1, rfl, by decide⟩

end Expr

end ShaderAlgebra
