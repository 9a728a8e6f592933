import ShaderAlgebra.Proofs.Outcome
import ShaderAlgebra.Script.Name
import ShaderAlgebra.Script.Operation

/-!
# What scripts are built from

Lowering puts calls of the library around what it is given, and at some places it keeps a value for
later: as the branch of a conditional, as the property of an object and as what is assigned. Four
helpers of the library go through the components of what they are handed. `Script.Expr.BuiltFrom`
says that an expression is built that way from given materials: the names in it, the values that it
keeps and those that it hands to such a helper. Each operation of lowering keeps to it, with one
lemma for each.
-/

namespace ShaderAlgebra

open List

namespace Script

/-- The object that a path starts from: what stands before its first dot. -/
def root (path : String) : String := String.ofList (path.toList.takeWhile (· ≠ '.'))

lemma root_append {owner : String} (plain : ∀ c ∈ owner.toList, c ≠ '.') (name : String) :
    root (owner ++ "." ++ name) = owner := by
  have prefixed : (owner ++ "." ++ name).toList = owner.toList ++ '.' :: name.toList := by simp
  rw [root, prefixed, takeWhile_append_of_pos (by simpa using plain)]
  simp

/-- The objects of the vectors and of the matrices of a size. -/
lemma root_sized {owner : String} (known : owner = "vec" ∨ owner = "mat") (size : Dim)
    (name : String) : root (owner ++ size.text ++ "." ++ name) ∈ reservedWords := by
  have plain : ∀ c ∈ (owner ++ size.text).toList, c ≠ '.' := by
    rintro c mem rfl
    revert mem
    rcases known with rfl | rfl <;> cases size <;> decide
  rw [root_append plain]
  rcases known with rfl | rfl <;> cases size <;> decide

namespace Expr

/-! ## Nodes -/

mutual

/-- The expressions inside of an expression, the root first. -/
def nodes : Expr → List Expr
  | .number digits => [.number digits]
  | .bool value => [.bool value]
  | .ident name => [.ident name]
  | .member base property => .member base property :: nodes base
  | .index base position => .index base position :: (nodes base ++ nodes position)
  | .unary op operand => .unary op operand :: nodes operand
  | .binary op left right => .binary op left right :: (nodes left ++ nodes right)
  | .conditional condition accept reject =>
    .conditional condition accept reject :: (nodes condition ++ nodes accept ++ nodes reject)
  | .call callee arguments => .call callee arguments :: (nodes callee ++ nodesOfAll arguments)
  | .array items => .array items :: nodesOfAll items
  | .object properties => .object properties :: nodesOfProperties properties
  | .assign op target value => .assign op target value :: (nodes target ++ nodes value)

def nodesOfAll : List Expr → List Expr
  | [] => []
  | e :: es => nodes e ++ nodesOfAll es

def nodesOfProperties : List (String × Expr) → List Expr
  | [] => []
  | (_, e) :: properties => nodes e ++ nodesOfProperties properties

end

lemma forall_mem_nodesOfAll {P : Expr → Prop} {es : List Expr} :
    (∀ n ∈ nodesOfAll es, P n) ↔ ∀ e ∈ es, ∀ n ∈ e.nodes, P n := by
  induction es with
  | nil => simp [nodesOfAll]
  | cons e es ih => rw [nodesOfAll, forall_mem_append, ih, forall_mem_cons]

lemma forall_mem_nodesOfProperties {P : Expr → Prop} {properties : List (String × Expr)} :
    (∀ n ∈ nodesOfProperties properties, P n) ↔ ∀ p ∈ properties, ∀ n ∈ p.2.nodes, P n := by
  induction properties with
  | nil => simp [nodesOfProperties]
  | cons p properties ih => rw [nodesOfProperties, forall_mem_append, ih, forall_mem_cons]

/-- The values that the root keeps for later. -/
def ownSlots : Expr → List Expr
  | .conditional _ accept reject => [accept, reject]
  | .object properties => properties.map Prod.snd
  | .assign none _ value => [value]
  | _ => []

/-- The helpers of the library that go through the components of their arguments. -/
def helpers : List String := ["glsl.splat", "glsl.vector", "glsl.matrix", "glsl.map"]

/-- What a call hands to such a helper. The first argument of `glsl.map` is the function that it
applies. -/
def handed (path : String) (arguments : List Expr) : List Expr :=
  if path ∉ helpers then [] else if path = "glsl.map" then arguments.tail else arguments

lemma not_mem_helpers {path : String} (other : path.toList.head? ≠ some 'g') : path ∉ helpers := by
  simp only [helpers, mem_cons, not_mem_nil, or_false]
  rintro (rfl | rfl | rfl | rfl) <;> exact other (by decide)

/-! ## Building -/

/-- What scripts are built from. -/
structure Materials where
  /-- The names that may be used, besides those of the library. -/
  named : String → Prop
  kept : Expr → Prop
  /-- What may be handed to a helper, besides numbers. -/
  passed : Expr → Prop

variable {M : Materials}

/-- Whether the root is of the materials. -/
def Materials.Allows (M : Materials) : Expr → Prop
  | .ident path => M.named path ∨ root path ∈ reservedWords
  | .call (.ident path) arguments =>
    M.named path ∨ ∀ value ∈ handed path arguments, M.passed value ∨ ∃ n, value = .int n
  | e => ∀ value ∈ e.ownSlots, M.kept value

/-- The expression is built from the materials. -/
def BuiltFrom (M : Materials) (e : Expr) : Prop := ∀ n ∈ e.nodes, M.Allows n

namespace BuiltFrom

variable {e value condition accept reject : Expr} {args : List Expr} {path : String}

lemma mono {M' : Materials} (built : BuiltFrom M e) (named : ∀ name, M.named name → M'.named name)
    (kept : ∀ e, M.kept e → M'.kept e) (passed : ∀ e, M.passed e → M'.passed e) :
    BuiltFrom M' e := by
  intro n mem
  have allowed := built n mem
  unfold Materials.Allows at allowed ⊢
  split
  · exact allowed.imp_left (named _)
  · exact allowed.imp (named _) fun all value mem => (all value mem).imp_left (passed value)
  · next other => exact fun value mem => kept value (by simp_all)

lemma of_mem_slots {k n : Expr} (built : BuiltFrom M e) (mem : n ∈ e.nodes)
    (own : k ∈ n.ownSlots) : M.kept k := by
  have allowed := built n mem
  unfold Materials.Allows at allowed
  split at allowed
  · cases own
  · cases own
  · exact allowed k own

lemma named (isNamed : M.named path) : BuiltFrom M (.ident path) :=
  forall_mem_singleton.mpr (.inl isNamed)

lemma library (reserved : root path ∈ reservedWords) : BuiltFrom M (.ident path) :=
  forall_mem_singleton.mpr (.inr reserved)

lemma number (digits : String) : BuiltFrom M (.number digits) := forall_mem_singleton.mpr nofun

lemma int (n : Int) : BuiltFrom M (.int n) := number _

lemma bool (value : Bool) : BuiltFrom M (.bool value) := forall_mem_singleton.mpr nofun

lemma member (property : String) (built : BuiltFrom M e) : BuiltFrom M (.member e property) :=
  forall_mem_cons.mpr ⟨nofun, built⟩

lemma index {pos : Expr} (base : BuiltFrom M e) (atPosition : BuiltFrom M pos) :
    BuiltFrom M (.index e pos) :=
  forall_mem_cons.mpr ⟨nofun, forall_mem_append.mpr ⟨base, atPosition⟩⟩

lemma unary (op : UnaryOp) (built : BuiltFrom M e) : BuiltFrom M (.unary op e) :=
  forall_mem_cons.mpr ⟨nofun, built⟩

lemma binary (op : BinaryOp) {left right : Expr} (builtLeft : BuiltFrom M left)
    (builtRight : BuiltFrom M right) : BuiltFrom M (.binary op left right) :=
  forall_mem_cons.mpr ⟨nofun, forall_mem_append.mpr ⟨builtLeft, builtRight⟩⟩

lemma conditional (test : BuiltFrom M condition) (accepted : BuiltFrom M accept)
    (rejected : BuiltFrom M reject) (keptAccept : M.kept accept) (keptReject : M.kept reject) :
    BuiltFrom M (.conditional condition accept reject) := by
  refine forall_mem_cons.mpr ⟨?_, forall_mem_append.mpr
    ⟨forall_mem_append.mpr ⟨test, accepted⟩, rejected⟩⟩
  simp [Materials.Allows, ownSlots, keptAccept, keptReject]

lemma array (built : ∀ item ∈ args, BuiltFrom M item) : BuiltFrom M (.array args) :=
  forall_mem_cons.mpr ⟨nofun, forall_mem_nodesOfAll.mpr built⟩

lemma object {properties : List (String × Expr)} (built : ∀ p ∈ properties, BuiltFrom M p.2)
    (kept : ∀ p ∈ properties, M.kept p.2) : BuiltFrom M (.object properties) :=
  forall_mem_cons.mpr ⟨forall_mem_map.mpr kept, forall_mem_nodesOfProperties.mpr built⟩

lemma store (target : BuiltFrom M e) (built : BuiltFrom M value) (kept : M.kept value) :
    BuiltFrom M (.assign none e value) :=
  forall_mem_cons.mpr ⟨forall_mem_singleton.mpr kept, forall_mem_append.mpr ⟨target, built⟩⟩

lemma update (op : BinaryOp) (target : BuiltFrom M e) (built : BuiltFrom M value) :
    BuiltFrom M (.assign (some op) e value) :=
  forall_mem_cons.mpr ⟨nofun, forall_mem_append.mpr ⟨target, built⟩⟩

/-! ## Calls -/

lemma callNamed (isNamed : M.named path) (built : ∀ arg ∈ args, BuiltFrom M arg) :
    BuiltFrom M (.callOf path args) :=
  forall_mem_cons.mpr ⟨.inl isNamed,
    forall_mem_append.mpr ⟨named isNamed, forall_mem_nodesOfAll.mpr built⟩⟩

/-- A call of the library. -/
lemma callWith (reserved : root path ∈ reservedWords)
    (passed : ∀ value ∈ handed path args, M.passed value ∨ ∃ n, value = .int n)
    (built : ∀ arg ∈ args, BuiltFrom M arg) : BuiltFrom M (.callOf path args) :=
  forall_mem_cons.mpr ⟨.inr passed,
    forall_mem_append.mpr ⟨library reserved, forall_mem_nodesOfAll.mpr built⟩⟩

/-- A call of the library that goes through no components. -/
lemma callOf (plain : root path ∈ reservedWords ∧ path ∉ helpers)
    (built : ∀ arg ∈ args, BuiltFrom M arg) : BuiltFrom M (.callOf path args) :=
  callWith plain.1 (by simp [handed, plain.2]) built

lemma one (built : BuiltFrom M e) : ∀ arg ∈ [e], BuiltFrom M arg := by
  simpa using built

lemma two {first second : Expr} (builtFirst : BuiltFrom M first)
    (builtSecond : BuiltFrom M second) : ∀ arg ∈ [first, second], BuiltFrom M arg := by
  simpa using ⟨builtFirst, builtSecond⟩

lemma cons {es : List Expr} (first : BuiltFrom M e) (rest : ∀ arg ∈ es, BuiltFrom M arg)
    : ∀ arg ∈ e :: es, BuiltFrom M arg :=
  forall_mem_cons.mpr ⟨first, rest⟩

/-- A call of a helper that takes a size and values. -/
lemma callSized (size : Dim) (helper : root path ∈ reservedWords ∧ path ≠ "glsl.map")
    (passed : ∀ value ∈ args, M.passed value)
    (built : ∀ arg ∈ args, BuiltFrom M arg) :
    BuiltFrom M (.callOf path (.dimension size :: args)) := by
  refine callWith helper.1 ?_ (cons (int _) built)
  unfold handed
  split
  · nofun
  · rw [if_neg helper.2]
    exact forall_mem_cons.mpr ⟨.inr ⟨_, rfl⟩, fun value mem => .inl (passed value mem)⟩

section

variable (size : Dim) (name : String) (built : ∀ arg ∈ args, BuiltFrom M arg)

include size name built

lemma vectorCall : BuiltFrom M (.vectorCall size name args) :=
  callOf ⟨root_sized (.inl rfl) size name, not_mem_helpers (by simp [vectorPath])⟩ built

lemma matrixCall : BuiltFrom M (.matrixCall size name args) :=
  callOf ⟨root_sized (.inr rfl) size name, not_mem_helpers (by simp [matrixPath])⟩ built

lemma vectorOut : BuiltFrom M (.vectorOut size name args) :=
  vectorCall size name (cons (vectorCall size "create" (by simp)) built)

lemma matrixOut : BuiltFrom M (.matrixOut size name args) :=
  matrixCall size name (cons (matrixCall size "create" (by simp)) built)

end

lemma splat (size : Dim) (built : BuiltFrom M value) (passed : M.passed value) :
    BuiltFrom M (.splat size value) :=
  callSized size (by decide) (forall_mem_singleton.mpr passed) (one built)

lemma reciprocal (built : BuiltFrom M value) : BuiltFrom M (.reciprocal value) :=
  .binary .divide (int 1) built

lemma copy (shape : Shape) (built : BuiltFrom M value) : BuiltFrom M (.copy shape value) := by
  cases shape with
  | number | boolean => exact built
  | vector size => exact vectorCall size "clone" (one built)
  | matrix size => exact matrixCall size "clone" (one built)
  | aggregate => exact callOf (by decide) (one built)

end BuiltFrom

end Expr

/-! ## Operations -/

section Operations

open ShaderAlgebra.Script.Expr (BuiltFrom Materials)
open ShaderAlgebra.Script.Expr.BuiltFrom (one two)

variable {M : Materials} {node : ShaderAlgebra.Expr} {l r j : Expr} {op : BinaryOp}
  {size : Dim} {left right : ShapedExpr} {shapes : List Shape} {values : List Expr}
  {args : List ShaderAlgebra.Expr}

section

variable (first : BuiltFrom M l) (second : BuiltFrom M r)

include first second

lemma builtFrom_vectorWithNumber (passed : M.passed r)
    (made : vectorWithNumber node op size l r = .ok j) : BuiltFrom M j := by
  unfold vectorWithNumber at made
  split at made <;> cases made
  · exact .vectorOut size _ (two first second)
  · exact .vectorOut size _ (two first second.reciprocal)
  all_goals exact .vectorOut size _ (two first (second.splat size passed))

lemma builtFrom_numberWithVector (passed : M.passed l)
    (made : numberWithVector node op size l r = .ok j) : BuiltFrom M j := by
  unfold numberWithVector at made
  split at made <;> cases made
  · exact .vectorOut size _ (two second first)
  all_goals exact .vectorOut size _ (two (first.splat size passed) second)

lemma builtFrom_matrixWithNumber (made : matrixWithNumber node op size l r = .ok j) :
    BuiltFrom M j := by
  unfold matrixWithNumber at made
  split at made <;> cases made
  · exact .matrixOut size _ (two first second)
  · exact .matrixOut size _ (two first second.reciprocal)

lemma builtFrom_matrices (made : matrices node op size l r = .ok j) : BuiltFrom M j := by
  unfold matrices at made
  split at made <;> cases made
  all_goals exact .matrixOut size _ (two first second)

end

section

variable (builtLeft : BuiltFrom M left.expr)

include builtLeft

lemma builtFrom_arithmetic (builtRight : BuiltFrom M right.expr)
    (passedLeft : left.shape = .number → M.passed left.expr)
    (passedRight : right.shape = .number → M.passed right.expr)
    (made : arithmetic node op left right = .ok j) : BuiltFrom M j := by
  unfold arithmetic at made
  split at made
  · split at made <;> cases made
    · exact .callOf (by decide) (one (.binary _ builtLeft builtRight))
    · exact .binary _ builtLeft builtRight
  · split at made <;> cases made
    exact .vectorOut _ _ (two builtLeft builtRight)
  · next number =>
    exact builtFrom_vectorWithNumber builtLeft builtRight (passedRight number) made
  · next number _ =>
    exact builtFrom_numberWithVector builtLeft builtRight (passedLeft number) made
  · split at made <;> cases made
    exact .vectorOut _ _ (two builtRight builtLeft)
  · split at made <;> cases made
    exact .vectorOut _ _ (two builtLeft (.matrixOut _ _ (one builtRight)))
  · exact builtFrom_matrices builtLeft builtRight made
  · exact builtFrom_matrixWithNumber builtLeft builtRight made
  · split at made <;> cases made
    exact .matrixOut _ _ (two builtRight builtLeft)
  · cases made

lemma builtFrom_equality (right : BuiltFrom M r)
    (made : equality node op left r = .ok j) : BuiltFrom M j := by
  have signed {equal : Expr} (built : BuiltFrom M equal) :
      BuiltFrom M (if op = .equal then equal else .unary .not equal) := by
    split
    · exact built
    · exact .unary .not built
  unfold equality at made
  dsimp only at made
  split at made <;> cases made
  · exact .binary op builtLeft right
  · exact .binary op builtLeft right
  · exact signed (.vectorCall _ _ (two builtLeft right))
  · exact signed (.matrixCall _ _ (two builtLeft right))

lemma builtFrom_binaryOf (builtRight : BuiltFrom M right.expr)
    (passedLeft : left.shape = .number → M.passed left.expr)
    (passedRight : right.shape = .number → M.passed right.expr)
    (made : binaryOf node op left right = .ok j) : BuiltFrom M j := by
  cases op with
  | logicalAnd | logicalOr | less | lessEqual | greater | greaterEqual =>
    cases made
    exact .binary _ builtLeft builtRight
  | equal | notEqual => exact builtFrom_equality builtLeft builtRight made
  | add | subtract | multiply | divide | modulo =>
    exact builtFrom_arithmetic builtLeft builtRight passedLeft passedRight made

end

lemma builtFrom_unaryOf {op : UnaryOp} {operand : ShapedExpr} (built : BuiltFrom M operand.expr) :
    BuiltFrom M (unaryOf op operand) := by
  unfold unaryOf
  split
  · exact .unary .not built
  · exact .vectorOut _ _ (one built)
  · exact .matrixOut _ _ (two built (.int _))
  · exact .unary .negate built

lemma builtFrom_components (pattern : List Component) :
    ∀ arg ∈ pattern.map Expr.component, BuiltFrom M arg := by
  simp only [mem_map]
  rintro _ ⟨c, -, rfl⟩
  exact .int _

lemma builtFrom_readSwizzle {pattern : List Component} (vector : BuiltFrom M l) :
    BuiltFrom M (readSwizzle l pattern) := by
  unfold readSwizzle
  split
  · exact .index vector (.int _)
  · exact .callOf (by decide) (vector.cons (builtFrom_components _))

lemma builtFrom_writeSwizzle {pattern : List Component} (vector : BuiltFrom M l)
    (value : BuiltFrom M r) (isKept : M.kept r) : BuiltFrom M (writeSwizzle l pattern r) := by
  unfold writeSwizzle
  split
  · exact .store (.index vector (.int _)) value isKept
  · exact .callOf (by decide) (vector.cons (two (.array (builtFrom_components _)) value))

/-! ## Constructors and built-in functions -/

lemma builtFrom_constructScalar {target source : Option Kind} {shape : Shape}
    (value : BuiltFrom M l) (flags : source = some .bool → M.kept (.int 1) ∧ M.kept (.int 0)) :
    BuiltFrom M (constructScalar target source shape l) := by
  have converted {e : Expr} (built : BuiltFrom M e) :
      BuiltFrom M (convertScalar target source e) := by
    unfold convertScalar
    split
    · exact built
    · exact .binary _ built (.int 0)
    · exact .conditional built (.int 1) (.int 0) (flags rfl).1 (flags rfl).2
    · exact .callOf (by decide) (one built)
    · exact built
  unfold constructScalar
  split
  · exact converted (.index value (.int 0))
  · exact converted (.index value (.int 0))
  · exact converted value

section

variable (built : ∀ value ∈ values, BuiltFrom M value) (passed : ∀ value ∈ values, M.passed value)

include built passed

lemma builtFrom_constructVector : BuiltFrom M (constructVector size shapes values) := by
  unfold constructVector
  split
  · exact .callSized size (by decide) passed built
  · split
    · exact .copy _ (built _ mem_cons_self)
    · exact .callSized size (by decide) passed built
  · split
    · exact .vectorCall size _ built
    · exact .callSized size (by decide) passed built

lemma builtFrom_constructMatrix : BuiltFrom M (constructMatrix size shapes values) := by
  unfold constructMatrix
  split
  · exact .callSized size (by decide) passed built
  · split
    · exact .copy _ (built _ mem_cons_self)
    · exact .callOf (by decide) (.cons (.int _) (.cons (.int _) built))
  · split
    · exact .matrixCall size _ built
    · exact .callSized size (by decide) passed built

end

lemma builtFrom_construct {ty : Ty} {values : Unit → Lowered (List Expr)}
    (built : ∀ es, values () = .ok es → ∀ value ∈ es, BuiltFrom M value)
    (passed : ty.isScalar = false → ∀ es, values () = .ok es → ∀ value ∈ es, M.passed value)
    (flags : ∀ arg, args = [arg] → arg.ty.kind? = some .bool → M.kept (.int 1) ∧ M.kept (.int 0))
    (made : construct node ty args values = .ok j) : BuiltFrom M j := by
  simp only [construct, bind_eq_ok] at made
  obtain ⟨shapes, -, es, lowered, rest⟩ := made
  have builtAll := built es lowered
  have several {shape : Shape} (shaped : ty.shape? = some shape) (wide : shape ≠ .number)
      (large : shape ≠ .boolean) : ∀ value ∈ es, M.passed value := by
    refine passed ?_ es lowered
    cases ty with
    | scalar kind => cases kind <;> simp_all [Ty.shape?]
    | _ => rfl
  split at rest
  · next shaped =>
    cases rest
    exact builtFrom_constructVector builtAll (several shaped nofun nofun)
  · next shaped =>
    cases rest
    exact builtFrom_constructMatrix builtAll (several shaped nofun nofun)
  · cases rest
  · split at rest
    · cases rest
      exact builtFrom_constructScalar (builtAll _ mem_cons_self) (flags _ rfl)
    · cases rest
  · cases rest

/-- The path of a function that a call names. -/
def LibraryCall.path? : LibraryCall → Option String
  | .function path | .map path => some path
  | _ => none

lemma path_of_library (builtin : Builtin) (shape : Shape) :
    ∀ call ∈ (Library.of builtin).call? shape, ∀ path ∈ call.path?,
      root path ∈ reservedWords ∧ path ∉ Expr.helpers := by
  have all : ∀ call ∈ (Library.of builtin).scalar.toList ++ (Library.of builtin).vector.toList
      ++ (Library.of builtin).matrix.toList, ∀ path ∈ call.path?,
        root path ∈ reservedWords ∧ path ∉ Expr.helpers := by
    cases builtin <;> decide
  intro call isCall
  refine all call ?_
  cases shape <;> simp_all [Library.call?]

lemma builtFrom_widened (built : ∀ value ∈ values, BuiltFrom M value)
    (passed : ∀ value ∈ values, M.passed value) :
    ∀ value ∈ widened size shapes values, BuiltFrom M value := by
  intro value mem
  obtain ⟨i, inRange, rfl⟩ := mem_iff_getElem.mp mem
  have inValues : i < values.length := by
    simp only [widened, length_zipWith] at inRange
    omega
  have inside := getElem_mem inValues
  simp only [widened, getElem_zipWith]
  split
  · exact (built _ inside).splat size (passed _ inside)
  · exact built _ inside

lemma builtFrom_builtinCall {builtin : Builtin} {values : Unit → Lowered (List Expr)}
    (built : ∀ es, values () = .ok es → ∀ value ∈ es, BuiltFrom M value)
    (passed : ∀ es, values () = .ok es → ∀ value ∈ es, M.passed value)
    (made : builtinCall node builtin args values = .ok j) : BuiltFrom M j := by
  simp only [builtinCall, bind_eq_ok] at made
  obtain ⟨shapes, -, rest⟩ := made
  split at rest
  · cases rest
  · next call found =>
    obtain ⟨es, lowered, rest⟩ := bind_eq_ok.mp rest
    have builtAll := built es lowered
    have inLibrary := path_of_library builtin _ call found
    split at rest <;> cases rest
    · exact .callOf (inLibrary _ rfl) builtAll
    · refine .callWith (by decide) (fun value mem => ?_)
        (.cons (.library (inLibrary _ rfl).1) builtAll)
      exact .inl (passed es lowered value mem)
    · exact .vectorOut _ _ (builtFrom_widened builtAll (passed es lowered))
    · exact .vectorCall _ _ builtAll
    · exact .matrixOut _ _ builtAll
    · exact .matrixCall _ _ builtAll

end Operations

end Script

end ShaderAlgebra
