import ShaderAlgebra.Proofs.Script.Assembly
import ShaderAlgebra.Proofs.Script.Lowering
import ShaderAlgebra.Proofs.Typing.Uses
import ShaderAlgebra.Script.Shader

/-!
# What lowered code comes from

The script of an expression is built from the variables and functions that the expression uses
(`Expr.Uses`), the values that it keeps for later are scripts of values that the expression keeps
(`Expr.Keeps`), and what it hands to a helper are scripts of values that the expression hands over
(`Expr.Passes`). That is `Expr.isBuilt`. Whoever asks which names a script has, which values it
keeps or what it hands over, asks it of `Script.Expr.BuiltFrom` and leaves lowering alone.

The last part opens the lowering of functions, globals and shaders.
-/

namespace ShaderAlgebra

open Logged List

/-- The name of the symbol in a script. -/
def Symbol.spelling (u : Symbol) : String := Script.mangle u.name

/-! ## What an expression uses and keeps -/

variable {name : String} {structs : StructTable}

namespace Expr

variable {e : Expr} {j : Script.Expr} {ty : Ty} {structs : StructTable}

/-- A variable or a function that the expression uses, as a script spells it. -/
def Uses (e : Expr) (name : String) : Prop := ∃ u ∈ e.uses, name = u.spelling

/-- The root keeps the value of an expression for later. -/
inductive KeepsOwn : Expr → Expr → Prop
  | accept {condition accept reject ty} :
    KeepsOwn (.conditional condition accept reject ty) accept
  | reject {condition accept reject ty} :
    KeepsOwn (.conditional condition accept reject ty) reject
  /-- The argument of a struct's constructor becomes a member. -/
  | member {function arguments members argument} : argument ∈ arguments →
    KeepsOwn (.call function arguments (.struct function members)) argument
  | assigned {target value ty} : KeepsOwn (.assign none target value ty) value
  /-- A compound assignment keeps what it computes. -/
  | computed {op target value ty result} : binaryOf op target value = .ok result →
    KeepsOwn (.assign (some op) target value ty) result
  /-- A boolean becomes a number by a choice between one and zero. -/
  | flag {function argument ty} (n : Int32) : argument.ty.kind? = some .bool →
    n = 0 ∨ n = 1 → KeepsOwn (.call function [argument] ty) (ofInt n)

/-- The expression keeps the value of another one for later, somewhere in it. -/
def Keeps (e value : Expr) : Prop := ∃ s, Within s e ∧ s.KeepsOwn value

/-- The script is that of a value that the expression keeps. -/
def KeepsScript (structs : StructTable) (e : Expr) (j : Script.Expr) : Prop :=
  ∃ value, e.Keeps value ∧ value.lowerValue structs = .ok j

/-- The root hands the value of a part to a helper. A number beside a vector is spread over it, and
the arguments of vectors, matrices and built-in functions are gone through. -/
inductive PassesOwn : Expr → Expr → Prop
  | operand {op left right ty operand} : operand ∈ [left, right] →
    operand.ty.shape? = some .number → PassesOwn (.binary op left right ty) operand
  | updated {op target value ty operand} : operand ∈ [target, value] →
    operand.ty.shape? = some .number → PassesOwn (.assign (some op) target value ty) operand
  | component {function arguments ty built argument} : Ty.ofName? function = some built →
    built.isScalar = false → argument ∈ arguments →
    PassesOwn (.call function arguments ty) argument
  | argument {function arguments ty builtin argument} : Ty.ofName? function = none →
    Builtin.ofName? function = some builtin → argument ∈ arguments →
    PassesOwn (.call function arguments ty) argument

/-- The script is that of a value that the expression hands to a helper, somewhere in it. -/
def PassesScript (structs : StructTable) (e : Expr) (j : Script.Expr) : Prop :=
  ∃ s part, Within s e ∧ s.PassesOwn part ∧ part.lower structs = .ok j

/-- What the script of the expression is built from. -/
def materials (structs : StructTable) (e : Expr) : Script.Expr.Materials :=
  ⟨e.Uses, e.KeepsScript structs, e.PassesScript structs⟩

variable {s target value : Expr}

lemma Uses.within (inside : Within s e) (uses : s.Uses name) : e.Uses name := by
  obtain ⟨u, used, rfl⟩ := uses
  exact ⟨u, mem_uses_of_within inside used, rfl⟩

lemma uses_ident (inside : Within (.ident name ty) e) : e.Uses (Script.mangle name) :=
  ⟨⟨name, some ty⟩, mem_uses.mpr ⟨_, inside, rfl⟩, rfl⟩

lemma uses_callee {function : String} {args : List Expr}
    (called : (Expr.call function args ty).callee? = some name) :
    (Expr.call function args ty).Uses (Script.mangle name) := by
  refine ⟨⟨name, none⟩, mem_uses.mpr ⟨_, .root, ?_⟩, rfl⟩
  rw [use?, called]
  · rfl
  · intro _ _ same
    cases same

lemma KeepsScript.within (inside : Within s e) (keeps : s.KeepsScript structs j) :
    e.KeepsScript structs j := by
  obtain ⟨value, ⟨node, inner, own⟩, lowered⟩ := keeps
  exact ⟨value, ⟨node, inner.trans inside, own⟩, lowered⟩

lemma PassesScript.within (inside : Within s e) (passes : s.PassesScript structs j) :
    e.PassesScript structs j := by
  obtain ⟨node, part, inner, own, lowered⟩ := passes
  exact ⟨node, part, inner.trans inside, own, lowered⟩

/-! ## Lowering -/

/-- What holds of a tree whenever it holds inside of its direct parts holds of every tree. -/
lemma induction_within {P : Expr → Prop}
    (node : ∀ e : Expr, (∀ part ∈ e.children, ∀ s, Within s part → P s) → P e) (e : Expr) :
    P e := by
  have all : ∀ s, Within s e → P s := by
    induction e using Expr.induction with
    | node e ih => exact forall_within_iff.mpr ⟨node e ih, ih⟩
  exact all e .root

/-- The scripts of an expression, as a value and as a place, are built from given ones. -/
structure IsBuilt (structs : StructTable) (M : Script.Expr.Materials) (e : Expr) : Prop where
  lower : ∀ {j}, e.lower structs = .ok j → j.BuiltFrom M
  place : ∀ {j}, e.place structs = .ok j → j.BuiltFrom M

/-- The script of an assignment of a value that is lowered already. -/
def storeAt (structs : StructTable) (target : Expr) (node : String) (stored : Script.Expr) :
    Lowered Script.Expr := do
  match target with
  | .field base name _ =>
    if base.ty.isVector then
      match Swizzle.parse name with
      | .ok swizzle => return Script.writeSwizzle (← base.place structs) swizzle.pattern stored
      | .error error => .unsupported (.badNode error) node
    else return .assign none (← target.place structs) stored
  | .index base position _ =>
    if base.ty.isMatrix then
      match ← base.shape with
      | .matrix size =>
        let matrix ← base.place structs
        let column ← position.lower structs
        return .callOf "glsl.setColumn" [matrix, .dimension size, column, stored]
      | _ => .unrepresentable base.ty node
    else return .assign none (← target.place structs) stored
  | _ => return .assign none (← target.place structs) stored

/-- The script of a plain assignment. -/
lemma lower_assign (lowered : (Expr.assign none target value ty).lower structs = .ok j) :
    ∃ stored node, value.lowerValue structs = .ok stored
      ∧ target.storeAt structs node stored = .ok j := by
  simp only [lower, bind_eq_ok] at lowered
  obtain ⟨_, -, _, -, plain, loweredValue, stored, isStored, rest⟩ := lowered
  exact ⟨stored, _, bind_eq_ok.mpr ⟨plain, loweredValue, isStored⟩, rest⟩

/-- The script of a compound assignment: one of the script too, or a plain assignment of what is
computed. -/
lemma lower_update {op : BinaryOp}
    (lowered : (Expr.assign (some op) target value ty).lower structs = .ok j) :
    (∃ written v, target.place structs = .ok written ∧ value.lower structs = .ok v
      ∧ j = .assign (some (Script.arithmeticOp op)) written v)
    ∨ ∃ result stored node, binaryOf op target value = .ok result
      ∧ result.lowerValue structs = .ok stored ∧ target.storeAt structs node stored = .ok j := by
  simp only [lower, bind_eq_ok] at lowered
  obtain ⟨_, -, isNative, -, rest⟩ := lowered
  split at rest
  · simp only [bind_eq_ok, pure_eq_ok] at rest
    obtain ⟨written, placed, v, loweredValue, rfl⟩ := rest
    exact .inl ⟨written, v, placed, loweredValue, rfl⟩
  · split at rest
    · cases rest
    · next result isResult =>
      simp only [bind_eq_ok] at rest
      obtain ⟨_, shaped, leftShape, left, rightShape, right, l, loweredL, r, loweredR, stored,
        made, rest⟩ := rest
      obtain ⟨resultTy, -, rfl⟩ := binaryOf_eq_ok.mp isResult
      refine .inr ⟨_, stored, _, isResult, ?_, rest⟩
      simp only [lowerValue, lower, bind_eq_ok]
      exact ⟨stored, ⟨_, shaped, leftShape, left, rightShape, right, l, loweredL, r, loweredR,
        made⟩, rfl⟩

section Nodes

variable {structs : StructTable} {M : Script.Expr.Materials} {j : Script.Expr}

lemma builtFrom_stored {plain : Script.Expr} (built : plain.BuiltFrom M)
    (stored : e.stored plain = .ok j) : j.BuiltFrom M := by
  unfold Expr.stored at stored
  split at stored
  · cases stored
    exact built
  · simp only [bind_eq_ok, pure_eq_ok] at stored
    obtain ⟨shape, -, rfl⟩ := stored
    exact built.copy shape

lemma builtFrom_lowerValue (built : e.IsBuilt structs M)
    (lowered : e.lowerValue structs = .ok j) : j.BuiltFrom M := by
  obtain ⟨plain, isPlain, stored⟩ := bind_eq_ok.mp lowered
  exact builtFrom_stored (built.lower isPlain) stored

lemma builtFrom_storeAt {node : String} {stored : Script.Expr}
    (parts : ∀ s, Within s target → s.IsBuilt structs M)
    (built : stored.BuiltFrom M) (isKept : M.kept stored)
    (written : target.storeAt structs node stored = .ok j) : j.BuiltFrom M := by
  have whole (placed : (do return .assign none (← target.place structs) stored) = Except.ok j) :
      j.BuiltFrom M := by
    simp only [bind_eq_ok, pure_eq_ok] at placed
    obtain ⟨place, isPlace, rfl⟩ := placed
    exact .store ((parts target .root).place isPlace) built isKept
  unfold storeAt at written
  split at written
  · next base name ty =>
    have inBase := parts base (.part (by simp [children]) .root)
    split at written
    · split at written
      · simp only [bind_eq_ok, pure_eq_ok] at written
        obtain ⟨vector, isPlace, rfl⟩ := written
        exact Script.builtFrom_writeSwizzle (inBase.place isPlace) built isKept
      · cases written
    · exact whole written
  · next base pos ty =>
    have inBase := parts base (.part (by simp [children]) .root)
    have inPosition := parts pos (.part mem_position .root)
    split at written
    · obtain ⟨shape, -, written⟩ := bind_eq_ok.mp written
      split at written
      · simp only [bind_eq_ok, pure_eq_ok] at written
        obtain ⟨matrix, isPlace, col, isColumn, rfl⟩ := written
        exact .callOf (by decide) (.cons (inBase.place isPlace) (.cons (.int _)
          (.two (inPosition.lower isColumn) built)))
      · cases written
    · exact whole written
  · exact whole written

lemma builtFrom_place (named : ∀ name ty, Within (.ident name ty) e → M.named (Script.mangle name))
    (parts : ∀ part ∈ e.children, ∀ s, Within s part → s.IsBuilt structs M)
    (placed : e.place structs = .ok j) : j.BuiltFrom M := by
  cases e with
  | ident name ty =>
    cases placed
    exact .named (named name ty .root)
  | field base name ty =>
    have inBase := parts base mem_base base .root
    simp only [place] at placed
    split at placed
    · split at placed
      · simp only [bind_eq_ok, pure_eq_ok] at placed
        obtain ⟨object, isPlace, rfl⟩ := placed
        exact .index (inBase.place isPlace) (.int _)
      · cases placed
    · simp only [bind_eq_ok, pure_eq_ok] at placed
      obtain ⟨object, isPlace, rfl⟩ := placed
      exact .member name (inBase.place isPlace)
  | index base pos ty =>
    have inBase := parts base mem_indexed
    have inPosition := parts pos mem_position pos .root
    have element (placed : (do
        let object ← base.place structs
        return Script.Expr.index object (← pos.lower structs)) = Except.ok j) :
        j.BuiltFrom M := by
      simp only [bind_eq_ok, pure_eq_ok] at placed
      obtain ⟨object, isPlace, i, isIndex, rfl⟩ := placed
      exact .index ((inBase base .root).place isPlace) (inPosition.lower isIndex)
    cases base with
    | index matrix col columnTy =>
      have inMatrix := inBase matrix (.part (by simp [children]) .root)
      have inColumn := inBase col (.part (by simp [children]) .root)
      rw [place] at placed
      split at placed
      · split at placed
        · split at placed
          · next found =>
            simp only [bind_eq_ok, pure_eq_ok] at placed
            obtain ⟨_, rfl, object, isPlace, rfl⟩ := placed
            unfold matrixElement? at found
            split at found <;> cases found
            exact .index (inMatrix.place isPlace) (.int _)
          · simp only [bind_eq_ok, pure_eq_ok] at placed
            obtain ⟨c, isColumn, r, isRow, _, rfl, object, isPlace, rfl⟩ := placed
            exact .index (inMatrix.place isPlace) (.binary _
              (.binary _ (inColumn.lower isColumn) (.int _)) (inPosition.lower isRow))
        · cases placed
      · split at placed
        · cases placed
        · exact element placed
    | _ =>
      simp only [place] at placed
      split at placed
      · cases placed
      · exact element placed
  | _ => cases placed

lemma builtFrom_binary {op : BinaryOp} {left right : Expr}
    (inLeft : left.IsBuilt structs M) (inRight : right.IsBuilt structs M)
    (passes : ∀ operand ∈ [left, right], operand.ty.shape? = some .number →
      ∀ j, operand.lower structs = .ok j → M.passed j)
    (lowered : (Expr.binary op left right ty).lower structs = .ok j) : j.BuiltFrom M := by
  simp only [lower, bind_eq_ok, shape_eq_ok] at lowered
  obtain ⟨_, -, leftShape, shapedLeft, rightShape, shapedRight, l, loweredLeft, r, loweredRight,
    rest⟩ := lowered
  refine Script.builtFrom_binaryOf (inLeft.lower loweredLeft) (inRight.lower loweredRight) ?_ ?_ rest
  · rintro rfl
    exact passes left (by simp) shapedLeft l loweredLeft
  · rintro rfl
    exact passes right (by simp) shapedRight r loweredRight

lemma builtFrom_assign {op : Option BinaryOp}
    (keeps : ∀ kept, (Expr.assign op target value ty).KeepsOwn kept →
      ∀ j, kept.lowerValue structs = .ok j → M.kept j)
    (passes : ∀ part, (Expr.assign op target value ty).PassesOwn part →
      ∀ j, part.lower structs = .ok j → M.passed j)
    (inTarget : ∀ s, Within s target → s.IsBuilt structs M)
    (inValue : value.IsBuilt structs M)
    (lowered : (Expr.assign op target value ty).lower structs = .ok j) :
    j.BuiltFrom M := by
  cases op with
  | none =>
    obtain ⟨stored, node, loweredValue, written⟩ := lower_assign lowered
    exact builtFrom_storeAt inTarget (builtFrom_lowerValue inValue loweredValue)
      (keeps value .assigned _ loweredValue) written
  | some op =>
    rcases lower_update lowered with
      ⟨place, v, placed, loweredValue, rfl⟩ | ⟨result, stored, node, isResult, computed, written⟩
    · exact .update _ ((inTarget target .root).place placed) (inValue.lower loweredValue)
    · refine builtFrom_storeAt inTarget ?_ (keeps result (.computed isResult) _ computed) written
      obtain ⟨resultTy, -, rfl⟩ := binaryOf_eq_ok.mp isResult
      obtain ⟨plain, isPlain, isStored⟩ := bind_eq_ok.mp computed
      refine builtFrom_stored (builtFrom_binary (inTarget target .root) inValue ?_ isPlain) isStored
      exact fun operand mem number => passes operand (.updated mem number)

lemma lowerMembers_eq_ok {names : List String} {es : List Expr}
    {properties : List (String × Script.Expr)}
    (lowered : lowerMembers structs names es = .ok properties) :
    ∀ p ∈ properties, ∃ e ∈ es, e.lowerValue structs = .ok p.2 := by
  induction es generalizing names properties with
  | nil => cases names <;> cases lowered <;> simp
  | cons e es ih =>
    cases names with
    | nil => cases lowered; simp
    | cons name names =>
      simp only [lowerMembers, bind_eq_ok, pure_eq_ok] at lowered
      obtain ⟨plain, isPlain, value, stored, rest, loweredRest, rfl⟩ := lowered
      intro p mem
      rcases mem_cons.mp mem with rfl | inRest
      · exact ⟨e, mem_cons_self, bind_eq_ok.mpr ⟨plain, isPlain, stored⟩⟩
      · obtain ⟨e', inEs, loweredValue⟩ := ih loweredRest p inRest
        exact ⟨e', mem_cons_of_mem _ inEs, loweredValue⟩

lemma exists_of_mem_lowerAll {es : List Expr} {js : List Script.Expr}
    (lowered : lowerAll structs es = .ok js) (mem : j ∈ js) : ∃ e ∈ es, e.lower structs = .ok j := by
  have related := lowerAll_eq_ok.mp lowered
  obtain ⟨i, inRange, rfl⟩ := mem_iff_getElem.mp mem
  have inEs : i < es.length := related.length_eq ▸ inRange
  exact ⟨_, getElem_mem inEs, related.get inEs inRange⟩

lemma builtFrom_call {function : String} {args : List Expr}
    (named : ∀ name, (Expr.call function args ty).callee? = some name →
      M.named (Script.mangle name))
    (keeps : ∀ value, (Expr.call function args ty).KeepsOwn value →
      ∀ j, value.lowerValue structs = .ok j → M.kept j)
    (passes : ∀ part, (Expr.call function args ty).PassesOwn part →
      ∀ j, part.lower structs = .ok j → M.passed j)
    (parts : ∀ arg ∈ args, arg.IsBuilt structs M)
    (lowered : (Expr.call function args ty).lower structs = .ok j) :
    j.BuiltFrom M := by
  have builtAll (js) (loweredAll : lowerAll structs args = .ok js) : ∀ j ∈ js, j.BuiltFrom M := by
    intro j mem
    obtain ⟨e, inside, loweredPart⟩ := exists_of_mem_lowerAll loweredAll mem
    exact (parts e inside).lower loweredPart
  have passedAll (own : ∀ e ∈ args, (Expr.call function args ty).PassesOwn e) (js)
      (loweredAll : lowerAll structs args = .ok js) : ∀ j ∈ js, M.passed j := by
    intro j mem
    obtain ⟨e, inside, loweredPart⟩ := exists_of_mem_lowerAll loweredAll mem
    exact passes e (own e inside) j loweredPart
  simp only [lower, bind_eq_ok] at lowered
  obtain ⟨_, -, rest⟩ := lowered
  split at rest
  · next isType =>
    refine Script.builtFrom_construct builtAll
      (fun wide => passedAll fun e => .component isType wide) (fun arg isOne isBool => ?_) rest
    subst isOne
    exact ⟨keeps _ (.flag 1 isBool (.inr rfl)) _ rfl, keeps _ (.flag 0 isBool (.inl rfl)) _ rfl⟩
  · next notType =>
    split at rest
    · next isBuiltin =>
      exact Script.builtFrom_builtinCall builtAll
        (passedAll fun e => .argument notType isBuiltin) rest
    · next notBuiltin =>
      have declared (named : M.named (Script.mangle function))
          (loweredAll : (do return .callOf (Script.mangle function) (← lowerAll structs args))
            = Except.ok j) : j.BuiltFrom M := by
        simp only [bind_eq_ok, pure_eq_ok] at loweredAll
        obtain ⟨js, loweredAll, rfl⟩ := loweredAll
        exact .callNamed named (builtAll js loweredAll)
      split at rest
      · next name members =>
        split at rest
        · next same =>
          subst same
          simp only [bind_eq_ok, pure_eq_ok] at rest
          obtain ⟨properties, loweredMembers, rfl⟩ := rest
          have members := lowerMembers_eq_ok loweredMembers
          refine .object (fun p mem => ?_) (fun p mem => ?_)
          · obtain ⟨arg, isArgument, loweredValue⟩ := members p mem
            exact builtFrom_lowerValue (parts arg isArgument) loweredValue
          · obtain ⟨arg, isArgument, loweredValue⟩ := members p mem
            exact keeps arg (.member isArgument) _ loweredValue
        · next other =>
          refine declared (named function ?_) rest
          simp [callee?, notType, notBuiltin, other]
      · next notStruct =>
        refine declared (named function ?_) rest
        simp only [callee?, notType, notBuiltin]
        cases ty with
        | struct name members => exact absurd rfl (notStruct name members)
        | _ => rfl

end Nodes

/-- The scripts of an expression are built from what it names, they keep the scripts of what it
keeps, and they hand over the scripts of what it hands over. -/
lemma isBuilt (structs : StructTable) (e : Expr) : e.IsBuilt structs (e.materials structs) := by
  induction e using induction_within with
  | node e ih =>
    have parts (part : Expr) (mem : part ∈ e.children) (s : Expr) (inside : Within s part) :
        s.IsBuilt structs (e.materials structs) := by
      have own := ih part mem s inside
      have inRoot : Within s e := .part mem inside
      have more {j : Script.Expr} (built : j.BuiltFrom (s.materials structs)) :
          j.BuiltFrom (e.materials structs) :=
        built.mono (fun _ => .within inRoot) (fun _ => .within inRoot) fun _ => .within inRoot
      exact ⟨fun lowered => more (own.lower lowered), fun placed => more (own.place placed)⟩
    have part (s : Expr) (mem : s ∈ e.children) := parts s mem s .root
    have keeps (value : Expr) (own : e.KeepsOwn value) (j : Script.Expr)
        (lowered : value.lowerValue structs = .ok j) : e.KeepsScript structs j :=
      ⟨value, ⟨e, .root, own⟩, lowered⟩
    have passes (part : Expr) (own : e.PassesOwn part) (j : Script.Expr)
        (lowered : part.lower structs = .ok j) : e.PassesScript structs j :=
      ⟨e, part, .root, own, lowered⟩
    refine ⟨fun {j} lowered => ?_, builtFrom_place (fun _ _ => uses_ident) parts⟩
    cases e with
    | literal value ty =>
      simp only [lower, bind_eq_ok, pure_eq_ok] at lowered
      obtain ⟨_, -, rfl⟩ := lowered
      cases value with
      | bool value => exact .bool value
      | int value | float value => exact .number _
    | ident name ty =>
      simp only [lower, bind_eq_ok, pure_eq_ok] at lowered
      obtain ⟨_, -, rfl⟩ := lowered
      exact .named (uses_ident .root)
    | field base name ty =>
      have inBase := part base mem_base
      simp only [lower, bind_eq_ok] at lowered
      obtain ⟨_, -, object, loweredBase, rest⟩ := lowered
      split at rest
      · split at rest
        · cases rest
          exact Script.builtFrom_readSwizzle (inBase.lower loweredBase)
        · cases rest
      · cases rest
        exact .member name (inBase.lower loweredBase)
    | index base pos ty =>
      have object := part base mem_indexed
      have index := part pos mem_position
      simp only [lower, bind_eq_ok] at lowered
      obtain ⟨_, -, o, loweredBase, i, loweredPosition, shape, -, rest⟩ := lowered
      split at rest
      · cases rest
        exact .callOf (by decide) (.cons (object.lower loweredBase)
          (.two (.int _) (index.lower loweredPosition)))
      · cases rest
        exact .index (object.lower loweredBase) (index.lower loweredPosition)
    | unary op operand ty =>
      simp only [lower, bind_eq_ok, pure_eq_ok] at lowered
      obtain ⟨_, -, value, loweredOperand, shape, -, rfl⟩ := lowered
      exact Script.builtFrom_unaryOf ((part operand mem_operand).lower loweredOperand)
    | binary op left right ty =>
      exact builtFrom_binary (part left mem_left) (part right mem_right)
        (fun operand mem number => passes operand (.operand mem number)) lowered
    | call function args ty =>
      exact builtFrom_call (fun name => uses_callee) keeps passes part lowered
    | conditional cond accept reject ty =>
      simp only [lower, bind_eq_ok, pure_eq_ok] at lowered
      obtain ⟨_, -, test, loweredTest, a, loweredAccept, accepted, storedAccept, r, loweredReject,
        rejected, storedReject, rfl⟩ := lowered
      have valueOfAccept : accept.lowerValue structs = .ok accepted :=
        bind_eq_ok.mpr ⟨a, loweredAccept, storedAccept⟩
      have valueOfReject : reject.lowerValue structs = .ok rejected :=
        bind_eq_ok.mpr ⟨r, loweredReject, storedReject⟩
      exact .conditional ((part cond mem_condition).lower loweredTest)
        (builtFrom_lowerValue (part accept mem_accept) valueOfAccept)
        (builtFrom_lowerValue (part reject mem_reject) valueOfReject)
        (keeps accept .accept _ valueOfAccept) (keeps reject .reject _ valueOfReject)
    | assign op target value ty =>
      exact builtFrom_assign keeps passes (parts target mem_target) (part value mem_value) lowered

end Expr

/-! ## Values of variables that have none -/

namespace Ty

section Default

variable {M : Script.Expr.Materials} {named : String → Lowered Script.Expr} {node : String}

mutual

lemma builtFrom_defaultWith (builtNamed : ∀ name j, named name = .ok j → j.BuiltFrom M)
    (keptAll : ∀ ty j, Ty.defaultWith named node ty = .ok j → M.kept j) :
    (ty : Ty) → ∀ {j : Script.Expr}, ty.defaultWith named node = .ok j → j.BuiltFrom M
  | .array base size, _, made => by
    simp only [defaultWith, bind_eq_ok, pure_eq_ok] at made
    obtain ⟨item, isItem, rfl⟩ := made
    refine .array fun other mem => ?_
    obtain rfl := eq_of_mem_replicate mem
    exact builtFrom_defaultWith builtNamed keptAll base isItem
  | .struct name [], j, made => by
    exact builtNamed name j made
  | .struct name (member :: members), _, made => by
    simp only [defaultWith, bind_eq_ok, pure_eq_ok] at made
    obtain ⟨properties, isObject, rfl⟩ := made
    have built := builtFrom_defaultMembers builtNamed keptAll (member :: members) isObject
    exact .object (fun p mem => (built p mem).1) fun p mem => (built p mem).2
  | .scalar kind, _, made => by
    cases kind <;> cases made
    · exact .bool false
    all_goals exact .int 0
  | .vector size kind, _, made => by
    cases kind <;> cases made
    exact .vectorCall size _ (by simp)
  | .matrix cols rows, _, made => by
    by_cases square : cols = rows
    · simp only [defaultWith, shape?, if_pos square] at made
      cases made
      exact .matrixCall cols _ (by simp)
    · simp only [defaultWith, shape?, if_neg square] at made
      cases made
  | .void, _, made | .unknown, _, made | .function .., _, made => by cases made

lemma builtFrom_defaultMembers (builtNamed : ∀ name j, named name = .ok j → j.BuiltFrom M)
    (keptAll : ∀ ty j, Ty.defaultWith named node ty = .ok j → M.kept j) :
    (members : List (String × Ty)) → ∀ {properties : List (String × Script.Expr)},
      defaultMembers named node members = .ok properties →
      ∀ p ∈ properties, p.2.BuiltFrom M ∧ M.kept p.2
  | [], _, made => by
    cases made
    simp
  | (name, ty) :: members, _, made => by
    simp only [defaultMembers, bind_eq_ok, pure_eq_ok] at made
    obtain ⟨value, isValue, rest, isRest, rfl⟩ := made
    intro p mem
    rcases mem_cons.mp mem with rfl | inRest
    · exact ⟨builtFrom_defaultWith builtNamed keptAll ty isValue, keptAll ty value isValue⟩
    · exact builtFrom_defaultMembers builtNamed keptAll members isRest p inRest

end

end Default

end Ty

/-- The script is the value of a variable of the type that has none yet. -/
def StructTable.IsDefault (structs : StructTable) (ty : Ty) (j : Script.Expr) : Prop :=
  ∃ node depth, ty.defaultWith (structs.defaultNamed node depth) node = .ok j

/-- Such a value is built from nothing, and it keeps such values. -/
lemma StructTable.IsDefault.builtFrom {M : Script.Expr.Materials}
    (keptAll : ∀ ty j, structs.IsDefault ty j → M.kept j) {ty : Ty} {j : Script.Expr}
    (isDefault : structs.IsDefault ty j) : j.BuiltFrom M := by
  have builtNamed (node : String) (depth : Nat) (name : String) (j : Script.Expr)
      (found : structs.defaultNamed node depth name = .ok j) : j.BuiltFrom M := by
    induction depth generalizing name j with
    | zero => cases found
    | succ depth ih =>
      simp only [defaultNamed, bind_eq_ok, pure_eq_ok] at found
      obtain ⟨properties, isObject, rfl⟩ := found
      have built : ∀ p ∈ properties, p.2.BuiltFrom M ∧ M.kept p.2 := Ty.builtFrom_defaultMembers ih
          (fun ty j made => keptAll ty j ⟨node, depth, made⟩) _ isObject
      exact .object (fun p mem => (built p mem).1) fun p mem => (built p mem).2
  obtain ⟨node, depth, made⟩ := isDefault
  exact Ty.builtFrom_defaultWith (builtNamed node depth)
    (fun ty j made => keptAll ty j ⟨node, depth, made⟩) ty made

/-- The first value of a variable is that of its initializer, or it is a default. -/
lemma Ty.initialValue_eq_ok {ty : Ty} {init : Option Expr} {j : Script.Expr}
    (lowered : ty.initialValue structs name init = .ok j) :
    (∃ e ∈ init, e.lowerValue structs = .ok j) ∨ init = none ∧ structs.IsDefault ty j := by
  cases init with
  | none => exact .inr ⟨rfl, _, _, lowered⟩
  | some e => exact .inl ⟨e, rfl, lowered⟩

/-! ## Opening the lowering of shaders -/

namespace Stmt

section Open

variable {structs : StructTable} {s : Stmt}

/-- What a statement becomes. -/
lemma lower_eq_ok {t : Script.Stmt} (lowered : s.lower structs = .ok t) : match s with
    | .declare name ty init =>
      ∃ value, ty.initialValue structs name init = .ok value ∧ .declare (Script.mangle name) value = t
    | .eval e => ∃ j, e.lower structs = .ok j ∧ .eval j = t
    | .ret value =>
      ∃ value', value.mapM (fun e => e.lowerValue structs) = .ok value' ∧ .ret value' = t
    | .branch test accept reject => ∃ test', test.lower structs = .ok test'
      ∧ ∃ accept', lowerAll structs accept = .ok accept'
      ∧ ∃ reject', lowerAll structs reject = .ok reject' ∧ .branch test' accept' reject' = t
    | .loop init test step body => ∃ init', lowerOption structs init = .ok init'
      ∧ ∃ test', test.mapM (fun e => e.lower structs) = .ok test'
      ∧ ∃ step', step.mapM (fun e => e.lower structs) = .ok step'
      ∧ ∃ body', lowerAll structs body = .ok body' ∧ .loop init' test' step' body' = t
    | .block body => ∃ body', lowerAll structs body = .ok body' ∧ .block body' = t
    | .leave => .leave = t
    | .next => .next = t := by
  cases s with
  | declare name ty init =>
    simp only [lower, bind_eq_ok, pure_eq_ok] at lowered
    obtain ⟨_, -, isValue⟩ := lowered
    exact isValue
  | leave | next => exact Except.ok.inj lowered
  | _ => simpa only [lower, bind_eq_ok, pure_eq_ok] using lowered

lemma lowerOption_some_eq_ok {t : Option Script.Stmt}
    (lowered : lowerOption structs (some s) = .ok t) :
    ∃ t', s.lower structs = .ok t' ∧ some t' = t := by
  simpa only [lowerOption, bind_eq_ok, pure_eq_ok] using lowered

lemma lowerAll_cons_eq_ok {ss : List Stmt} {ts : List Script.Stmt}
    (lowered : lowerAll structs (s :: ss) = .ok ts) :
    ∃ t, s.lower structs = .ok t ∧ ∃ ts', lowerAll structs ss = .ok ts' ∧ t :: ts' = ts := by
  simpa only [lowerAll, bind_eq_ok, pure_eq_ok] using lowered

end Open

end Stmt

namespace Parameter

/-- The statement copies an argument into itself. -/
def IsCopiedBy (p : Parameter) (s : Script.Stmt) : Prop :=
  ∃ shape, p.ty.shape? = some shape
    ∧ s = .eval (.assign none (.ident (Script.mangle p.name))
      (.copy shape (.ident (Script.mangle p.name))))

lemma isCopiedBy_of_ownCopy {p : Parameter} {s : Script.Stmt} (own : p.ownCopy? = some s) :
    p.IsCopiedBy s := by
  unfold ownCopy? at own
  split at own
  · cases own
  · cases own
  · cases own
  · next shape _ _ shaped =>
    cases own
    exact ⟨shape, shaped, rfl⟩

end Parameter

/-- The statements that give the function its own copies of arguments. -/
def FunctionDef.copies (f : FunctionDef) : List Script.Stmt :=
  (f.parameters.filter fun p => (Stmt.writtenAll f.body).contains p.name).filterMap
    Parameter.ownCopy?

lemma FunctionDef.lower_eq_ok {f : FunctionDef} {g : Script.Function}
    (lowered : (f.lower structs).outcome = .ok g) :
    ∃ parameters returns body, Parameter.lowerAll f.parameters = .ok parameters
      ∧ Stmt.lowerAll structs f.body = .ok body
      ∧ g = ⟨Script.mangle f.name, parameters, returns, f.copies ++ body⟩ := by
  simp only [lower, outcome_bind, outcome_ofExcept, outcome_emit,
    outcome_pure, bind_eq_ok, Except.ok.injEq] at lowered
  obtain ⟨parameters, isParameters, returns, -, body, isBody, _, -, rfl⟩ := lowered
  exact ⟨parameters, returns, body, isParameters, isBody, rfl⟩

lemma GlobalVar.lower_eq_ok {g : GlobalVar} {item : Script.Item}
    (lowered : g.lower structs = .ok item) :
    ∃ docType value, g.ty.initialValue structs g.name g.init = .ok value
      ∧ (item = .constant ⟨Script.mangle g.name, docType⟩ value
        ∨ ∃ hasSetter, item = .global ⟨Script.mangle g.name, docType⟩ value hasSetter) := by
  simp only [lower, bind_eq_ok] at lowered
  obtain ⟨docType, -, value, isValue, rest⟩ := lowered
  refine ⟨docType, value, isValue, ?_⟩
  split at rest <;> cases rest
  · exact .inl rfl
  all_goals exact .inr ⟨_, rfl⟩

/-- What an item becomes. -/
lemma Item.lower_eq_ok {item : Item} {item' : Script.Item}
    (lowered : (item.lower structs).outcome = .ok item') :
    match item with
    | .struct declaration => ∃ properties, item' = .typedef declaration.name properties
    | .global declaration => declaration.lower structs = .ok item'
    | .function definition =>
      ∃ g, (definition.lower structs).outcome = .ok g ∧ item' = .function g := by
  cases item with
  | struct declaration =>
    simp only [lower, bind_ok, outcome_pure, Except.ok.injEq] at lowered
    obtain ⟨properties, -, rfl⟩ := lowered
    exact ⟨properties, rfl⟩
  | global declaration => exact lowered
  | function definition =>
    simp only [lower, bind_ok, outcome_pure, Except.ok.injEq] at lowered
    obtain ⟨g, isFunction, rfl⟩ := lowered
    exact ⟨g, isFunction, rfl⟩

lemma Shader.lower_eq_ok {shader : Shader} {script : Script.Module}
    (lowered : shader.lower.outcome = .ok script) :
    repeatedName? [] (shader.functions.map (·.name)) = none
      ∧ Forall₂ (fun item item' => (item.lower shader.structTable).outcome = .ok item')
        shader.items script.items := by
  have each (items : List Item) (items' : List Script.Item)
      (loweredAll : (Item.lowerAll shader.structTable items).outcome = .ok items') :
      Forall₂ (fun item item' => (item.lower shader.structTable).outcome = .ok item')
        items items' := by
    induction items generalizing items' with
    | nil =>
      cases loweredAll
      exact .nil
    | cons item items ih =>
      simp only [Item.lowerAll, bind_ok, outcome_pure, Except.ok.injEq] at loweredAll
      obtain ⟨first, isFirst, rest, isRest, rfl⟩ := loweredAll
      exact .cons isFirst (ih rest isRest)
  unfold lower at lowered
  split at lowered
  · cases lowered
  · next unrepeated =>
    simp only [outcome_bind, outcome_emit, outcome_pure, bind_eq_ok, Except.ok.injEq] at lowered
    obtain ⟨items, isItems, _, -, rfl⟩ := lowered
    exact ⟨unrepeated, each _ _ isItems⟩

end ShaderAlgebra
