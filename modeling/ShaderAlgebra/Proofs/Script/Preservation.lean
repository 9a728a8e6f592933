import ShaderAlgebra.Proofs.Script.Lowering
import ShaderAlgebra.Proofs.Script.Numeral

/-!
# Lowering keeps values

The script of an expression yields what represents the value of the expression, in exact arithmetic,
for all values of the variables at which that value is defined (`Expr.lower_preserves_value`). The
script is evaluated with any library that does what is documented, with the variables of the
expression under the names that they have in scripts, and a numeral stands for the number that it
was written for. Where integers are small that is one number (`Expr.isDefinite_setting`), and then
the script yields nothing else.

One thing more is asked. A name that scripts reserve gets an underscore at its end, and nothing
keeps another variable from having that name already. Then both are one variable of the script. So
two names of the expression may not be spelled alike (`Expr.KeepsNamesApart`). Without that the
script has another value (`Expr.lower_merges_names`).
-/

namespace ShaderAlgebra

open Script

variable {name : String}

/-! ## The setting of an expression -/

namespace Script

/-- No spelling in a script is a word that scripts reserve. -/
lemma mangle_not_mem_reservedWords (name : String) : mangle name ∉ reservedWords := by
  have spelled : ∀ word ∈ reservedWords, word ++ "_" ∉ reservedWords := by decide
  unfold mangle
  split
  · next reserved => exact spelled name reserved
  · next free => exact free

lemma Owner.text_mem_reservedWords (owner : Owner) : owner.text ∈ reservedWords := by
  cases owner with
  | vectors size | matrices size => cases size <;> decide
  | _ => decide

/-- The difference of a variable and itself is zero. -/
lemma Yields.subtract_self {S : Setting} {y : Value}
    (yields : Yields S (.binary .subtract (.ident name) (.ident name)) y) : y = .number 0 := by
  cases yields with
  | @binary _ _ _ x _ _ left right result =>
    cases left with
    | ident found =>
      cases right with
      | ident found' =>
        obtain rfl := Option.some.inj (found.symm.trans found')
        cases x with
        | number q =>
          obtain rfl : Value.number (q - q) = y := Option.some.inj result
          rw [sub_self]
        | boolean | array => cases result
  | decided decisive | undecided decisive => cases decisive

end Script

namespace Expr

variable {u : Unspecified} {e : Expr} {I : Interpretation (.exact u)}
  {library : Routine.Meaning}

/-- The names of the variables that an expression reads. -/
def variableNames (e : Expr) : List String :=
  e.nodes.filterMap fun
    | .ident name _ => some name
    | _ => none

lemma mem_variableNames {ty : Ty} (inside : Within (.ident name ty) e) : name ∈ e.variableNames :=
  List.mem_filterMap.mpr ⟨_, mem_nodes.mpr inside, rfl⟩

/-- Whether different variables are spelled differently in scripts. -/
def KeepsNamesApart (e : Expr) : Prop :=
  ∀ a ∈ e.variableNames, ∀ b ∈ e.variableNames, Script.mangle a = Script.mangle b → a = b

instance (e : Expr) : Decidable e.KeepsNamesApart :=
  inferInstanceAs (Decidable (∀ a ∈ e.variableNames, ∀ b ∈ e.variableNames, _ → a = b))

/-- The value of a variable in a script, if the node is a variable of that spelling. -/
def variableNamed (I : Interpretation (.exact u)) (name : String) : Expr → Option Script.Value
  | .ident own ty =>
    if Script.mangle own = name then (⟨ty, I.read own ty⟩ : Value (.exact u)).represent else none
  | _ => none

/-- What the script of an expression is evaluated in. A numeral stands for the literals that it was
written for, and the small integers that lowering writes stand for themselves. -/
def setting (library : Routine.Meaning) (I : Interpretation (.exact u)) (e : Expr) :
    Script.Setting where
  reads digits q :=
    (∃ n : Int, -1 ≤ n ∧ n ≤ 4 ∧ digits = toString n ∧ q = n)
      ∨ ∃ value ty, Within (.literal value ty) e ∧ Script.Expr.ofLiteral value = .number digits
          ∧ q = (Value.ofLiteral value : Value (.exact u)).part 0
  scope name := e.nodes.findSome? (variableNamed I name)
  library

lemma variableNamed_eq_some {x : Script.Value} (found : variableNamed I name e = some x) :
    ∃ own ty, e = .ident own ty ∧ Script.mangle own = name
      ∧ (⟨ty, I.read own ty⟩ : Value (.exact u)).represent = some x := by
  cases e with
  | ident own ty =>
    rw [variableNamed] at found
    split at found
    · next spelled => exact ⟨own, ty, rfl, spelled, found⟩
    · cases found
  | _ => cases found

lemma isStandard_setting (documented : library.IsDocumented) (I : Interpretation (.exact u))
    (e : Expr) : (e.setting library I).IsStandard where
  documented
  reads_int n atLeast atMost := .inl ⟨n, atLeast, atMost, rfl, rfl⟩
  free owner := by
    refine List.findSome?_eq_none_iff.mpr fun node _ => ?_
    by_contra found
    obtain ⟨x, found⟩ := Option.ne_none_iff_exists'.mp found
    obtain ⟨own, ty, rfl, spelled, -⟩ := variableNamed_eq_some found
    exact mangle_not_mem_reservedWords own (spelled ▸ owner.text_mem_reservedWords)

lemma suits_setting (I : Interpretation (.exact u)) {site : Site} (annotated : e.IsAnnotated site)
    (algebraic : e.IsAlgebraic) (apart : e.KeepsNamesApart) :
    Suits (e.setting library I) I e where
  reads value ty digits inside written := .inr ⟨value, ty, inside, written, rfl⟩
  scope name ty inside := by
    obtain ⟨x, shown⟩ := Value.exists_represent
      (v := (⟨ty, I.read name ty⟩ : Value (.exact u))) (algebraic _ inside).1
    rw [shown]
    cases searched : (e.setting library I).scope (Script.mangle name) with
    | none =>
      have missing := List.findSome?_eq_none_iff.mp searched _ (mem_nodes.mpr inside)
      rw [variableNamed, if_pos rfl, shown] at missing
      cases missing
    | some y =>
      obtain ⟨node, mem, found⟩ := List.exists_of_findSome?_eq_some searched
      obtain ⟨own, ty', rfl, spelled, shown'⟩ := variableNamed_eq_some found
      have insideOwn := mem_nodes.mp mem
      obtain rfl := apart own (mem_variableNames insideOwn) name (mem_variableNames inside) spelled
      obtain rfl : ty' = ty :=
        Option.some.inj ((annotated _ insideOwn).symm.trans (annotated _ inside))
      rw [← shown, shown']

/-- What a numeral in the script of an expression with small integers stands for: the number
nearest to it, or a number that it is the name of. -/
lemma reads_setting (small : ∀ n ty, Within (.literal (.int n) ty) e → n.toInt.natAbs < 2 ^ 24)
    {digits : String} {q : Rat} (read : (e.setting library I).reads digits q) :
    (∃ negative worth, Script.IsNumeral digits negative worth ∧ q = Script.nearest negative worth)
      ∨ (digits, q) ∈ Script.namedNumbers u := by
  have ofInt (n : Int) (small : n.natAbs < 2 ^ 24) :
      ∃ negative worth, Script.IsNumeral (toString n) negative worth
        ∧ (n : Rat) = Script.nearest negative worth :=
    ⟨_, _, isNumeral_int n, (nearest_int small).symm⟩
  rcases read with ⟨n, atLeast, atMost, rfl, rfl⟩ | ⟨value, ty, inside, written, rfl⟩
  · exact .inl (ofInt n (by omega))
  · cases value with
    | bool => cases written
    | int n =>
      cases written
      exact .inl (ofInt n.toInt (small n ty inside))
    | float x =>
      have worth : (Value.ofLiteral (.float x) : Value (.exact u)).part 0
          = Arithmetic.exactFloat u x := rfl
      rw [worth]
      cases finite : x.isFinite with
      | true =>
        obtain ⟨worth, numeral, value⟩ := isNumeral_float finite
        obtain rfl := Script.Expr.number.inj ((float_eq_toDecimal finite).symm.trans written)
        exact .inl ⟨_, worth, numeral, by rw [Arithmetic.exactFloat, if_pos finite, value]⟩
      | false => exact .inr (named_of_not_isFinite u finite written)

/-- Where integers are small, a numeral is written for one number. -/
lemma isDefinite_setting (I : Interpretation (.exact u))
    (small : ∀ n ty, Within (.literal (.int n) ty) e → n.toInt.natAbs < 2 ^ 24) :
    (e.setting library I).IsDefinite := by
  intro digits a b readA readB
  rcases reads_setting small readA with ⟨_, _, numeral, rfl⟩ | named <;>
    rcases reads_setting small readB with ⟨_, _, numeral', rfl⟩ | named'
  · obtain ⟨rfl, rfl⟩ := numeral.unique numeral'
    rfl
  · exact absurd numeral (not_isNumeral_of_named named')
  · exact absurd numeral' (not_isNumeral_of_named named)
  · exact namedNumbers_unique named named'

/-- Lowering keeps values: where the value of an expression is defined, its script yields what
represents it with every library that does what is documented, and nothing else where no numeral is
written for two numbers. -/
theorem lower_preserves_value {site : Site} {structs : StructTable} {source e : Expr}
    {j : Script.Expr} {library : Routine.Meaning} (documented : library.IsDocumented)
    (inferred : source.infer site = .ok e) (algebraic : e.IsAlgebraic) (apart : e.KeepsNamesApart)
    (lowered : e.lower structs = .ok j) (I : Interpretation (.exact u)) (defined : e.IsDefined I) :
    ∃ x, (e.eval I).represent = some x ∧ Script.Yields (e.setting library I) j x
      ∧ ((e.setting library I).IsDefinite →
        ∀ y, Script.Yields (e.setting library I) j y → y = x) := by
  have annotated := isAnnotated_of_infer inferred
  obtain ⟨x, represented, yields⟩ := standsFor_lower (isStandard_setting documented I e) annotated
    algebraic (suits_setting I annotated algebraic apart) defined lowered
  exact ⟨x, represented, yields, fun definite y yieldsY => yieldsY.unique definite yields⟩

end Expr

/-- An interpretation in which each variable is filled with a number of its own. -/
def Interpretation.ofNumbers (u : Unspecified) (number : String → Rat) :
    Interpretation (.exact u) where
  read := fun name ty =>
    (Value.build ty fun kind _ _ => (Arithmetic.exact u).convert .float kind (number name)).dataAs
      ty
  function := fun _ _ => Value.zeroData
  beyond := fun _ _ => Value.zeroData

namespace Expr

/-- `let > 4 ? p.y : (m * p)[let / 2]`, where `let` is three: the index is cut to one, the variable
gets another name, and only the branch that is taken need have a value. The library gives zero where
nothing is documented. -/
theorem lower_preserves_value_column :
    let u : Unspecified := ⟨fun a => a, fun a => a, fun a => a, 0, 0⟩
    let I : Interpretation (.exact u) := .ofNumbers u fun name => if name = "m" then 2 else 3
    let library : Routine.Meaning := fun routine xs => (routine.apply xs).or (some (.number 0))
    let symbols := (((SymbolTable.empty.declare "m" (.mat .two)).2.declare "p" (.vec .two)).2
      ).declare "let" Ty.int |>.2
    let n := Expr.ident "let" Ty.int
    let p := Expr.ident "p" (.vec .two)
    let product := Expr.binary .multiply (.ident "m" (.mat .two)) p (.vec .two)
    let e := Expr.conditional (.binary .greater n (.ofInt 4) Ty.bool) (.field p "y" Ty.float)
      (.index product (.binary .divide n (.ofInt 2) Ty.int) Ty.float) Ty.float
    let j := Script.Expr.conditional (.binary .greater (.ident "let_") (.int 4))
      (.index (.ident "p") (.int 1))
      (.index (.vectorOut .two "transformMat2" [.ident "p", .ident "m"])
        (.callOf "Math.trunc" [.binary .divide (.ident "let_") (.int 2)]))
    library.IsDocumented ∧ e.infer ⟨symbols, none⟩ = .ok e ∧ e.lower .empty = .ok j
      ∧ (e.eval I).represent = some (.number 12)
      ∧ ∀ y, Script.Yields (e.setting library I) j y ↔ y = .number 12 := by
  intro u I library symbols n p product e j
  have documented : library.IsDocumented := fun routine xs v gives => by simp [library, gives]
  have inferred : e.infer ⟨symbols, none⟩ = .ok e := by rfl
  have lowered : e.lower .empty = .ok j := by rfl
  have value : (e.eval I).represent = some (.number 12) := by decide +kernel
  have whole (i : Int32) : (Expr.ofInt i).IsDefined I := by
    simp [Expr.ofInt, Expr.ofLiteral, IsDefined]
  have test : (Expr.binary .greater n (.ofInt 4) Ty.bool).IsDefined I := by
    simp [n, whole, IsDefined]
  have rejected : ((Expr.binary .greater n (.ofInt 4) Ty.bool).eval I).truth = false := by
    decide +kernel
  have base : product.IsDefined I := by simp [product, p, IsDefined]
  have nonzero : ∀ q ∈ ((Expr.ofInt 2).eval I).cells, q ≠ 0 := by decide +kernel
  have position : (Expr.binary .divide n (.ofInt 2) Ty.int).IsDefined I := by
    rw [IsDefined]
    exact ⟨by simp [n, IsDefined], fun _ => whole 2, fun _ => nonzero⟩
  have inRange : ∃ place, ((Expr.binary .divide n (.ofInt 2) Ty.int).eval I).place? = some place
      ∧ ((product.eval I).element? place).isSome = true :=
    ⟨1, by decide +kernel, by decide +kernel⟩
  have defined : e.IsDefined I := by
    rw [IsDefined, if_neg (by simp [rejected]), IsDefined]
    exact ⟨test, base, position, inRange⟩
  have definite : (e.setting library I).IsDefinite := by
    refine isDefinite_setting I fun i ty inside => ?_
    have written := mem_nodes.mpr inside
    simp [e, product, n, p, nodes, Expr.ofInt, Expr.ofLiteral] at written
    rcases written with ⟨rfl, -⟩ | ⟨rfl, -⟩ <;> decide
  obtain ⟨x, represented, yields, unique⟩ :=
    lower_preserves_value documented inferred (by decide) (by decide) lowered I defined
  obtain rfl := Option.some.inj (represented.symm.trans value)
  exact ⟨documented, inferred, lowered, value, fun y => ⟨unique definite y, fun same => same ▸ yields⟩⟩

/-- `let - let_` becomes `let_ - let_`, which is zero whatever the variables are. -/
theorem lower_merges_names :
    let u : Unspecified := ⟨fun a => a, fun a => a, fun a => a, 0, 0⟩
    let symbols := ((SymbolTable.empty.declare "let" Ty.int).2.declare "let_" Ty.int).2
    let e := Expr.binary .subtract (.ident "let" Ty.int) (.ident "let_" Ty.int) Ty.int
    let j := Script.Expr.binary .subtract (.ident "let_") (.ident "let_")
    e.infer ⟨symbols, none⟩ = .ok e ∧ e.IsAlgebraic ∧ e.lower .empty = .ok j
      ∧ (∀ S y, Script.Yields S j y → y = .number 0)
      ∧ ∃ I : Interpretation (.exact u), e.IsDefined I
        ∧ (e.eval I).represent = some (.number 1) := by
  intro u symbols e j
  refine ⟨rfl, by decide, rfl, ?_, .ofNumbers u fun name => if name = "let" then 1 else 0, ?_, rfl⟩
  · exact fun S y yields => yields.subtract_self
  · simp [e, IsDefined]

end Expr

end ShaderAlgebra
