import ShaderAlgebra.Proofs.Script.Routine

/-!
# Evaluation of scripts

`Yields S e v` says that a lowered expression has a value in a setting. A setting gives the
variables, the numbers that numerals stand for, and the library that the routines are from. The
second is a relation, since two numbers may be written in the same way: the shortest text that reads
back as a float may be that of an integer too. Where a numeral stands for at most one number, an
expression has at most one value (`Yields.unique`).

Of the library nothing is known but its documentation: it gives what `Routine.apply` says wherever
that says something (`Routine.Meaning.IsDocumented`).

The routines are found through global names. A variable of such a name would hide them, so a call
asks that there is none.
-/

namespace ShaderAlgebra.Script

open List

/-- What calls of the routines of a library give, if anything. -/
abbrev Routine.Meaning := Routine → List Value → Option Value

/-- Whether the library does what is documented. What it does beyond that is its own affair. -/
def Routine.Meaning.IsDocumented (library : Routine.Meaning) : Prop :=
  ∀ routine arguments v, routine.apply arguments = some v → library routine arguments = some v

structure Setting where
  /-- The numbers that a numeral may stand for. -/
  reads : String → Rat → Prop
  /-- The variables. -/
  scope : String → Option Value
  /-- What the routines do. -/
  library : Routine.Meaning

/-- The value of the left operand that decides a logical operator. -/
def decisive? : BinaryOp → Option Bool
  | .logicalAnd => some false
  | .logicalOr => some true
  | _ => none

inductive Yields (S : Setting) : Expr → Value → Prop
  | number {digits : String} {q : Rat} : S.reads digits q → Yields S (.number digits) (.number q)
  | bool (b : Bool) : Yields S (.bool b) (.boolean b)
  | ident {name : String} {v : Value} : S.scope name = some v → Yields S (.ident name) v
  | index {base position : Expr} {x i v : Value} : Yields S base x → Yields S position i →
      x.element? i = some v → Yields S (.index base position) v
  | unary {op : UnaryOp} {operand : Expr} {x v : Value} : Yields S operand x →
      Value.unary? op x = some v → Yields S (.unary op operand) v
  | binary {op : BinaryOp} {left right : Expr} {x y v : Value} : Yields S left x →
      Yields S right y → Value.binary? op x y = some v → Yields S (.binary op left right) v
  /-- The right operand is not evaluated. -/
  | decided {op : BinaryOp} {left right : Expr} {b : Bool} : decisive? op = some b →
      Yields S left (.boolean b) → Yields S (.binary op left right) (.boolean b)
  | undecided {op : BinaryOp} {left right : Expr} {b c : Bool} : decisive? op = some b →
      Yields S left (.boolean !b) → Yields S right (.boolean c) →
      Yields S (.binary op left right) (.boolean c)
  /-- Only one branch is evaluated. -/
  | conditional {condition accept reject : Expr} {b : Bool} {v : Value} :
      Yields S condition (.boolean b) → Yields S (if b then accept else reject) v →
      Yields S (.conditional condition accept reject) v
  | call {routine : Routine} {arguments : List Expr} {xs : List Value} {v : Value} :
      S.scope routine.owner.text = none → Forall₂ (Yields S) arguments xs →
      S.library routine xs = some v → Yields S (.call (.ident routine.path) arguments) v

/-! ## Uniqueness -/

namespace Expr

/-- The parts of an expression whose values its own value is found from. -/
def operands : Expr → List Expr
  | .index base position => [base, position]
  | .unary _ operand => [operand]
  | .binary _ left right => [left, right]
  | .conditional condition accept reject => [condition, accept, reject]
  | .call _ arguments => arguments
  | _ => []

lemma sizeOf_lt_of_mem_operands {e part : Expr} (mem : part ∈ e.operands) :
    sizeOf part < sizeOf e := by
  cases e with
  | call callee args =>
    have smaller : sizeOf part < sizeOf args := sizeOf_lt_of_mem mem
    simp
    omega
  | number | bool | ident | member | array | object | assign => cases mem
  | _ =>
    simp only [operands, mem_cons, not_mem_nil, or_false] at mem
    rcases mem with rfl | rfl | rfl <;> simp <;> omega

/-- What holds of an expression whenever it holds of its operands holds of every expression. -/
lemma operandInduction {P : Expr → Prop}
    (node : ∀ e : Expr, (∀ part ∈ e.operands, P part) → P e) (e : Expr) : P e :=
  node e fun part _ => operandInduction node part
termination_by sizeOf e
decreasing_by exact sizeOf_lt_of_mem_operands ‹_›

end Expr

/-- Whether a numeral stands for at most one number. -/
def Setting.IsDefinite (S : Setting) : Prop :=
  ∀ digits a b, S.reads digits a → S.reads digits b → a = b

section Unique

variable {S : Setting} {v : Value}

lemma binary?_eq_none {op : BinaryOp} {b : Bool} (logical : decisive? op = some b)
    (x y : Value) : Value.binary? op x y = none := by
  cases op <;> cases logical <;> cases x <;> cases y <;> rfl

lemma yields_call_iff {callee : Expr} {args : List Expr} : Yields S (.call callee args) v ↔
      ∃ (routine : Routine) (xs : List Value),
        callee = .ident routine.path ∧ S.scope routine.owner.text = none
        ∧ Forall₂ (Yields S) args xs ∧ S.library routine xs = some v := by
  constructor
  · rintro (_ | _ | _ | _ | _ | _ | _ | _ | _ | ⟨free, values, result⟩)
    exact ⟨_, _, rfl, free, values, result⟩
  · rintro ⟨routine, xs, rfl, free, values, result⟩
    exact .call free values result

/-- A binary operator has one value if its operands have. -/
lemma Yields.unique_binary {op : BinaryOp} {left right : Expr} {w : Value}
    (sameLeft : ∀ {x y}, Yields S left x → Yields S left y → x = y)
    (sameRight : ∀ {x y}, Yields S right x → Yields S right y → x = y)
    (first : Yields S (.binary op left right) v) (second : Yields S (.binary op left right) w) :
    v = w := by
  cases first with
  | binary x y result =>
    cases second with
    | binary x' y' result' =>
      rw [sameLeft x x', sameRight y y', result'] at result
      exact (Option.some.inj result).symm
    | decided logical | undecided logical =>
      rw [binary?_eq_none logical] at result
      cases result
  | decided logical x =>
    cases second with
    | binary _ _ result =>
      rw [binary?_eq_none logical] at result
      cases result
    | decided _ x' => exact sameLeft x x'
    | undecided logical' x' =>
      have same := sameLeft x x'
      cases logical.symm.trans logical'
      simp at same
  | undecided logical x y =>
    cases second with
    | binary _ _ result =>
      rw [binary?_eq_none logical] at result
      cases result
    | decided logical' x' =>
      have same := sameLeft x x'
      cases logical.symm.trans logical'
      simp at same
    | undecided _ _ y' => exact sameRight y y'

lemma forall₂_unique {es : List Expr} {xs ys : List Value}
    (same : ∀ e ∈ es, ∀ x y, Yields S e x → Yields S e y → x = y) (first : Forall₂ (Yields S) es xs)
    (second : Forall₂ (Yields S) es ys) : xs = ys := by
  induction first generalizing ys with
  | nil =>
    cases second
    rfl
  | cons x _ ih =>
    cases second with
    | cons y rest =>
      rw [same _ mem_cons_self _ _ x y, ih (fun e mem => same e (mem_cons_of_mem _ mem)) rest]

/-- An expression has one value where numerals have one meaning. -/
lemma Yields.unique (definite : S.IsDefinite) {e : Expr} {w : Value} (first : Yields S e v)
    (second : Yields S e w) : v = w := by
  induction e using Expr.operandInduction generalizing v w with
  | node e ih =>
    cases e with
    | number digits =>
      obtain ⟨readFirst⟩ := first
      obtain ⟨readSecond⟩ := second
      rw [definite _ _ _ readFirst readSecond]
    | bool b =>
      cases first
      cases second
      rfl
    | ident name =>
      cases first with
      | ident found =>
        cases second with
        | ident found' => exact Option.some.inj (found.symm.trans found')
    | index base pos =>
      cases first with
      | index x i result =>
        cases second with
        | index x' i' result' =>
          rw [ih base (by simp [Expr.operands]) x x', ih pos (by simp [Expr.operands]) i i',
            result'] at result
          exact (Option.some.inj result).symm
    | unary op operand =>
      cases first with
      | unary x result =>
        cases second with
        | unary x' result' =>
          rw [ih operand (by simp [Expr.operands]) x x', result'] at result
          exact (Option.some.inj result).symm
    | binary op left right =>
      exact Yields.unique_binary (ih left (by simp [Expr.operands]))
        (ih right (by simp [Expr.operands])) first second
    | conditional cond accept reject =>
      cases first with
      | conditional test result =>
        cases second with
        | conditional test' result' =>
          cases ih cond (by simp [Expr.operands]) test test'
          refine ih _ ?_ result result'
          split <;> simp [Expr.operands]
    | call callee args =>
      obtain ⟨routine, xs, rfl, -, values, result⟩ := yields_call_iff.mp first
      obtain ⟨routine', ys, same, -, values', result'⟩ := yields_call_iff.mp second
      obtain rfl := Routine.path_injective (Expr.ident.inj same)
      rw [forall₂_unique (fun e mem _ _ => ih e mem) values values', result'] at result
      exact (Option.some.inj result).symm
    | member | array | object | assign => cases first

end Unique

/-! ## Forms of lowered expressions -/

/-- What lowered expressions rely on: the small integers that lowering writes itself are read, no
variable hides a routine, and the routines do what is documented. -/
structure Setting.IsStandard (S : Setting) : Prop where
  reads_int : ∀ n : Int, -1 ≤ n → n ≤ 4 → S.reads (toString n) n
  free : ∀ owner : Owner, S.scope owner.text = none
  documented : S.library.IsDocumented

section Forms

variable {S : Setting} (standard : S.IsStandard) {args : List Expr} {xs : List Value}
  {v : Value} {q : Rat} {size : Dim}

include standard

lemma yields_int {n : Int} (atLeast : -1 ≤ n) (atMost : n ≤ 4) : Yields S (.int n) (.number n) :=
  .number (standard.reads_int n atLeast atMost)

lemma yields_dimension (size : Dim) : Yields S (.dimension size) (.number size.count) := by
  have small : size.count ≤ 4 := by cases size <;> decide
  exact_mod_cast yields_int standard (n := size.count) (by omega) (by omega)

lemma yields_component (c : Component) : Yields S (.component c) (.number c.index) := by
  have small : c.index ≤ 4 := by cases c <;> decide
  exact_mod_cast yields_int standard (n := c.index) (by omega) (by omega)

lemma yields_routine (routine : Routine) (values : Forall₂ (Yields S) args xs)
    (result : routine.apply xs = some v) : Yields S (.callOf routine.path args) v :=
  .call (standard.free _) values (standard.documented _ _ _ result)

lemma yields_trunc {arg : Expr} (value : Yields S arg (.number q)) :
    Yields S (.callOf "Math.trunc" [arg]) (.number (integerPart q)) :=
  yields_routine standard .trunc (.cons value .nil) rfl

lemma yields_vectorCall (routine : VectorRoutine) (values : Forall₂ (Yields S) args xs)
    (result : routine.apply size xs = some v) :
    Yields S (.vectorCall size (routine.name size) args) v :=
  yields_routine standard (.vector size routine) values result

lemma yields_vectorOut (routine : VectorRoutine) (values : Forall₂ (Yields S) args xs)
    (result : ∀ out, routine.apply size (out :: xs) = some v) :
    Yields S (.vectorOut size (routine.name size) args) v := by
  have created : Yields S (.vectorCall size "create" []) _ :=
    yields_vectorCall standard .create .nil rfl
  exact yields_vectorCall standard routine (.cons created values) (result _)

lemma yields_matrixCall (routine : MatrixRoutine) (values : Forall₂ (Yields S) args xs)
    (result : routine.apply size xs = some v) : Yields S (.matrixCall size routine.name args) v :=
  yields_routine standard (.matrix size routine) values result

lemma yields_matrixOut (routine : MatrixRoutine) (values : Forall₂ (Yields S) args xs)
    (result : ∀ out, routine.apply size (out :: xs) = some v) :
    Yields S (.matrixOut size routine.name args) v := by
  have created : Yields S (.matrixCall size "create" []) _ :=
    yields_matrixCall standard .create .nil rfl
  exact yields_matrixCall standard routine (.cons created values) (result _)

/-- A vector times a number. -/
lemma yields_scale {vector factor : Expr} {x : Nat → Rat}
    (yields : Yields S vector (.vector size x)) (value : Yields S factor (.number q)) :
    Yields S (.vectorOut size "scale" [vector, factor]) (.vector size fun i => x i * q) :=
  yields_vectorOut standard .scale (.cons yields (.cons value .nil)) fun _ =>
    Value.mapVector_vector size (· * q) x

lemma yields_multiplyScalar {matrix factor : Expr} {x : Nat → Nat → Rat}
    (yields : Yields S matrix (.matrix size x)) (value : Yields S factor (.number q)) :
    Yields S (.matrixOut size "multiplyScalar" [matrix, factor])
      (.matrix size fun col row => x col row * q) :=
  yields_matrixOut standard .multiplyScalar (.cons yields (.cons value .nil)) fun _ =>
    Value.mapMatrix_matrix size (· * q) x

lemma yields_splat {e : Expr} (value : Yields S e (.number q)) :
    Yields S (.splat size e) (.vector size fun _ => q) := by
  refine yields_routine standard (.helper .splat) (.cons (yields_dimension standard size)
    (.cons value .nil)) ?_
  refine (sized_natCast _ size.count [.number q]).trans ?_
  simp [onOne, Value.number?, Value.vector]

lemma yields_reciprocal {e : Expr} (value : Yields S e (.number q)) (nonzero : q ≠ 0) :
    Yields S (.reciprocal e) (.number (1 / q)) := by
  refine .binary (yields_int standard (n := 1) (by decide) (by decide)) value ?_
  simp [Value.binary?, Value.combine?, nonzero]

end Forms

end ShaderAlgebra.Script
