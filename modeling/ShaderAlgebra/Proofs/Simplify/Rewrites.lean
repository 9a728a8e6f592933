import ShaderAlgebra.Proofs.Expr.Parts
import ShaderAlgebra.Proofs.Outcome
import ShaderAlgebra.Simplify.Rule

/-!
# What a rule can do to a node

`Expr.RewritesTo` lists every change that the rules other than constant folding can make at the root
of a tree, each with what the rule has checked. `candidate?_rewrites` says that the list is
complete. What a pass keeps, types or values, is then shown change by change, and no proof opens the
rules again.

The changes put their results together from subtrees of the node, from literals and constants of
types in the node, and from operators over such trees. `Expr.MadeFrom` says so much and no more; it
is enough for properties that every subtree has.
-/

namespace ShaderAlgebra.Expr

open Option List

variable {e new : Expr}

/-! ## The changes -/

/-- The first tree is changed to the second at its root, by a rule other than constant folding. -/
inductive RewritesTo : Expr → Expr → Prop
  | addZero {left right ty} : right.isZero = true → RewritesTo (.binary .add left right ty) left
  | zeroAdd {left right ty} : left.isZero = true → RewritesTo (.binary .add left right ty) right
  | addNegated {left right ty y new} :
    right.negated? = some y → binaryOf .subtract left y = .ok new →
      RewritesTo (.binary .add left right ty) new
  | negatedAdd {left right ty x new} :
    left.negated? = some x → binaryOf .subtract right x = .ok new →
      RewritesTo (.binary .add left right ty) new
  | subtractZero {left right ty} :
    right.isZero = true → RewritesTo (.binary .subtract left right ty) left
  | zeroSubtract {left right ty new} :
    left.isZero = true → unaryOf .negate right = .ok new →
      RewritesTo (.binary .subtract left right ty) new
  | subtractNegated {left right ty y new} :
    right.negated? = some y → binaryOf .add left y = .ok new →
      RewritesTo (.binary .subtract left right ty) new
  | multiplyOne {left right ty} :
    right.isOne = true → RewritesTo (.binary .multiply left right ty) left
  | oneMultiply {left right ty} :
    left.isOne = true → RewritesTo (.binary .multiply left right ty) right
  | multiplyZero {left right ty new} :
    left.isZero = true ∨ right.isZero = true → zero? ty = some new →
      RewritesTo (.binary .multiply left right ty) new
  | minusOneMultiply {left right ty new} :
    left.isMinusOne = true → unaryOf .negate right = .ok new →
      RewritesTo (.binary .multiply left right ty) new
  | multiplyMinusOne {left right ty new} :
    right.isMinusOne = true → unaryOf .negate left = .ok new →
      RewritesTo (.binary .multiply left right ty) new
  | multiplyNegations {a b s t ty new} :
    binaryOf .multiply a b = .ok new →
      RewritesTo (.binary .multiply (.unary .negate a s) (.unary .negate b t) ty) new
  | divideOne {left right ty} :
    right.isOne = true → RewritesTo (.binary .divide left right ty) left
  | twice {op operand s ty} : RewritesTo (.unary op (.unary op operand s) ty) operand
  | powerOne {function base exponent ty} :
    Builtin.ofName? function = some .pow → exponent.isOne = true →
      RewritesTo (.call function [base, exponent] ty) base
  | powerZero {function base exponent ty new} :
    Builtin.ofName? function = some .pow → exponent.isZero = true → one? ty = some new →
      RewritesTo (.call function [base, exponent] ty) new
  | choose {condition : Bool} {s accept reject ty} :
    RewritesTo (.conditional (.literal (.bool condition) s) accept reject ty)
      (if condition then accept else reject)
  | either {condition accept reject ty} :
    accept.agrees reject = true → RewritesTo (.conditional condition accept reject ty) accept
  | literalFirst {left right ty new} :
    ty.isMatrix = false → left.ty.isMatrix = false → right.ty.isMatrix = false →
      right.literal?.isSome = true → left.literal?.isNone = true →
      binaryOf .multiply right left = .ok new →
      RewritesTo (.binary .multiply left right ty) new
  | nestLeft {op left b c s ty inner new} :
    op = .add ∨ op = .multiply → ty.isMatrix = false → left.ty.isMatrix = false →
      s.isMatrix = false → b.ty.isMatrix = false → c.ty.isMatrix = false →
      binaryOf op left b = .ok inner → binaryOf op inner c = .ok new →
      RewritesTo (.binary op left (.binary op b c s) ty) new
  | double {left right ty two new} :
    left.agrees right = true → twoFor? left.ty = some two →
      binaryOf .multiply two left = .ok new → RewritesTo (.binary .add left right ty) new
  | cancel {left right ty new} :
    left.agrees right = true → zero? ty = some new →
      RewritesTo (.binary .subtract left right ty) new
  | collect {op left right ty a b c d term other sum new} :
    op = .add ∨ op = .subtract → left.splitTerm = (a, term) → right.splitTerm = (b, other) →
      term.agrees other = true → coefficient? a b = some c → coefficient? b (some c) = some d →
      binaryOf op c d = .ok sum → binaryOf .multiply sum term = .ok new →
      RewritesTo (.binary op left right ty) new

/-! ## Nothing else happens -/

lemma combined?_eq_some {op : BinaryOp} {left right : Expr} :
    combined? op left right = some e ↔ binaryOf op left right = .ok e :=
  toOption_eq_some

lemma negation?_eq_some {opd : Expr} : opd.negation? = some e ↔ unaryOf .negate opd = .ok e :=
  toOption_eq_some

lemma provided_eq_some {cond : Bool} {cand : Option Expr} :
    provided cond cand = some e ↔ cond ∧ cand = some e := by
  cases cond <;> simp [provided]

/-- An identity is one of the candidates of the node, and has its type. -/
lemma mem_identityCandidates (found : e.identity? = some new) :
    some new ∈ e.identityCandidates ∧ new.ty = e.ty := by
  obtain ⟨cand, mem, kept⟩ := exists_of_findSome?_eq_some found
  obtain ⟨rfl, typed⟩ := filter_eq_some_iff.mp kept
  exact ⟨mem, by simpa using typed⟩

lemma binaryCandidates_rewrites {op : BinaryOp} {left right : Expr} {ty : Ty}
    (mem : some new ∈ binaryCandidates op left right ty) :
    RewritesTo (.binary op left right ty) new := by
  cases op with
  | add =>
    simp only [binaryCandidates, mem_cons, not_mem_nil, or_false, eq_comm (a := some new),
      provided_eq_some, bind_eq_some_iff, combined?_eq_some, Option.some.injEq] at mem
    rcases mem with ⟨zero, rfl⟩ | ⟨zero, rfl⟩ | ⟨y, neg, built⟩ | ⟨x, neg, built⟩
    · exact .addZero zero
    · exact .zeroAdd zero
    · exact .addNegated neg built
    · exact .negatedAdd neg built
  | subtract =>
    simp only [binaryCandidates, mem_cons, not_mem_nil, or_false, eq_comm (a := some new),
      provided_eq_some, bind_eq_some_iff, combined?_eq_some, negation?_eq_some,
      Option.some.injEq] at mem
    rcases mem with ⟨zero, rfl⟩ | ⟨zero, built⟩ | ⟨y, neg, built⟩
    · exact .subtractZero zero
    · exact .zeroSubtract zero built
    · exact .subtractNegated neg built
  | multiply =>
    simp only [binaryCandidates, mem_cons, not_mem_nil, or_false, eq_comm (a := some new),
      provided_eq_some, negation?_eq_some, Option.some.injEq, Bool.or_eq_true] at mem
    rcases mem with ⟨one, rfl⟩ | ⟨one, rfl⟩ | ⟨zero, built⟩ | ⟨minus, built⟩ | ⟨minus, built⟩ | both
    · exact .multiplyOne one
    · exact .oneMultiply one
    · exact .multiplyZero zero built
    · exact .minusOneMultiply minus built
    · exact .multiplyMinusOne minus built
    · split at both
      · exact .multiplyNegations (combined?_eq_some.mp both)
      · cases both
  | divide =>
    simp only [binaryCandidates, mem_singleton, eq_comm (a := some new), provided_eq_some,
      Option.some.injEq] at mem
    obtain ⟨one, rfl⟩ := mem
    exact .divideOne one
  | _ => simp [binaryCandidates] at mem

lemma identity?_rewrites (found : e.identity? = some new) : RewritesTo e new := by
  obtain ⟨mem, -⟩ := mem_identityCandidates found
  unfold identityCandidates at mem
  split at mem
  · exact binaryCandidates_rewrites mem
  · obtain rfl : new = _ := by simpa using mem
    exact .twice
  · obtain rfl : new = _ := by simpa using mem
    exact .twice
  · split at mem
    · next pow =>
      simp only [mem_singleton, powerCandidate] at mem
      split at mem
      · next one =>
        cases mem
        exact .powerOne pow one
      · obtain ⟨zero, built⟩ := provided_eq_some.mp mem.symm
        exact .powerZero pow zero built
    · cases mem
  · cases mem

lemma chosen?_rewrites (found : e.chosen? = some new) : RewritesTo e new := by
  unfold chosen? at found
  split at found
  · cases found
    exact @RewritesTo.choose true ..
  · cases found
    exact @RewritesTo.choose false ..
  · split at found
    · next agree =>
      cases found
      exact .either agree
    · cases found
  · cases found

lemma reassociated?_rewrites (found : e.reassociated? = some new) : RewritesTo e new := by
  unfold reassociated? at found
  split at found
  · next op left right ty =>
    split at found
    · cases found
    · next chain =>
      split at found
      · cases found
      · next plain =>
        simp only [Bool.or_eq_true, not_or, Bool.not_eq_true] at plain
        split at found
        · next front =>
          simp only [Bool.and_eq_true, decide_eq_true_eq] at front
          obtain ⟨⟨rfl, lit⟩, oth⟩ := front
          exact .literalFirst plain.1.1 plain.1.2 plain.2 lit oth (combined?_eq_some.mp found)
        · split at found
          · next inner b c s _ =>
            split at found
            · cases found
            · next same =>
              simp only [Bool.or_eq_true, decide_eq_true_eq, not_or, ne_eq, Decidable.not_not,
                Bool.not_eq_true] at same
              obtain ⟨⟨rfl, matrixB⟩, matrixC⟩ := same
              obtain ⟨fst, built, rest⟩ := bind_eq_some_iff.mp found
              have either : inner = .add ∨ inner = .multiply := by cases inner <;> simp_all
              exact .nestLeft either plain.1.1 plain.1.2 plain.2 matrixB matrixC
                (combined?_eq_some.mp built) (combined?_eq_some.mp rest)
          · cases found
  · cases found

lemma collected?_rewrites (found : e.collected? = some new) : RewritesTo e new := by
  unfold collected? at found
  split at found
  · next op left right ty =>
    split at found
    · cases found
    · next either =>
      have either : op = .add ∨ op = .subtract := by cases op <;> simp_all
      split at found
      · next agree =>
        rcases either with rfl | rfl
        · obtain ⟨two, hTwo, built⟩ := bind_eq_some_iff.mp found
          exact .double agree hTwo (combined?_eq_some.mp built)
        · exact .cancel agree found
      · rcases hLeft : left.splitTerm with ⟨a, term⟩
        rcases hRight : right.splitTerm with ⟨b, oth⟩
        simp only [hLeft, hRight] at found
        split at found
        · cases found
        · next like =>
          simp only [Bool.or_eq_true, Bool.not_eq_true', not_or, Bool.not_eq_false] at like
          obtain ⟨c, hc, found⟩ := bind_eq_some_iff.mp found
          obtain ⟨d, hd, found⟩ := bind_eq_some_iff.mp found
          obtain ⟨sum, hSum, found⟩ := bind_eq_some_iff.mp found
          exact .collect either hLeft hRight like.1 hc hd (combined?_eq_some.mp hSum)
            (combined?_eq_some.mp found)
  · cases found

/-- The literal that constant folding makes of a node is the value of the node. -/
lemma fold?_eq_some (found : e.fold? = some new) :
    ∃ val, e.literalValue? = some val ∧ val.isFinite ∧ new = ofLiteral val := by
  obtain ⟨val, kept, rfl⟩ := map_eq_some_iff.mp found
  obtain ⟨folded, finite⟩ := filter_eq_some_iff.mp kept
  exact ⟨val, folded, finite, rfl⟩

/-- Every rule but constant folding makes one of the listed changes. -/
lemma candidate?_rewrites {rule : Rule} (oth : rule ≠ .constantFolding)
    (found : rule.candidate? e = some new) : RewritesTo e new := by
  cases rule with
  | constantFolding => exact absurd rfl oth
  | algebraicIdentities => exact identity?_rewrites found
  | conditionalElimination => exact chosen?_rewrites found
  | reassociation => exact reassociated?_rewrites found
  | likeTerms => exact collected?_rewrites found

/-! ## What a result is made of -/

/-- Trees put together from given ones, from finite literals and opposites of given ones, and from
zeros and ones of the types of some trees, with unary and binary operators. -/
inductive MadeOf (given typed : Expr → Prop) : Expr → Prop
  | given {x} : given x → MadeOf given typed x
  | literal {value : Literal} : value.isFinite = true → MadeOf given typed (ofLiteral value)
  | opposite {x ty} : given (.literal (.float x) ty) → MadeOf given typed (ofFloat (-x))
  | constant {s x} : typed s → zero? s.ty = some x ∨ one? s.ty = some x → MadeOf given typed x
  | unary {op operand x} :
    MadeOf given typed operand → unaryOf op operand = .ok x → MadeOf given typed x
  | binary {op left right x} : MadeOf given typed left → MadeOf given typed right →
    binaryOf op left right = .ok x → MadeOf given typed x

/-- The first tree is a proper subtree of the second. -/
def IsInner (s e : Expr) : Prop := ∃ part ∈ e.children, Within s part

lemma isInner_of_mem {part : Expr} (mem : part ∈ e.children) : IsInner part e := ⟨part, mem, .root⟩

lemma IsInner.within {s : Expr} : IsInner s e → Within s e
  | ⟨_, mem, ins⟩ => .part mem ins

/-- What the result of a change at the root of a tree is made of: its proper subtrees, and constants
of the types of its subtrees. -/
abbrev MadeFrom (e : Expr) : Expr → Prop := MadeOf (IsInner · e) (Within · e)

lemma negated?_madeOf {part y : Expr} (mem : part ∈ e.children) (neg : part.negated? = some y) :
    MadeFrom e y := by
  unfold negated? at neg
  split at neg
  · cases neg
    exact .given ⟨_, mem, .part mem_operand .root⟩
  · split at neg <;> cases neg
    exact .opposite (isInner_of_mem mem)
  · split at neg
    · obtain ⟨val, -, rfl⟩ := map_eq_some_iff.mp neg
      exact .literal rfl
    · cases neg
  · cases neg

/-- The coefficient and the rest of a term are the term or parts of it. -/
lemma splitTerm_within {rest : Expr} {coeff : Option Expr} (split : e.splitTerm = (coeff, rest)) :
    Within rest e ∧ ∀ c ∈ coeff, Within c e := by
  unfold splitTerm at split
  split at split
  · cases split
    refine ⟨.part mem_right .root, fun c mem => ?_⟩
    cases mem
    exact .part mem_left .root
  · cases split
    exact ⟨.root, by simp⟩

lemma coefficient?_madeOf {given typed : Expr → Prop} {own oth : Option Expr} {c : Expr}
    (ownGiven : ∀ e ∈ own, MadeOf given typed e) (otherTyped : own = none → ∀ e ∈ oth, typed e)
    (found : coefficient? own oth = some c) : MadeOf given typed c := by
  cases own with
  | some e =>
    obtain rfl : e = c := by simpa [coefficient?] using found
    exact ownGiven e rfl
  | none =>
    obtain ⟨s, present, one⟩ := bind_eq_some_iff.mp found
    exact .constant (otherTyped rfl s present) (.inr one)

lemma twoFor?_madeOf {given typed : Expr → Prop} {ty : Ty} {two : Expr}
    (found : twoFor? ty = some two) : MadeOf given typed two := by
  obtain ⟨kind, -, rfl⟩ := map_eq_some_iff.mp found
  have finite : Single.two.isFinite := by decide +kernel
  cases kind with
  | int => exact .literal rfl
  | bool | float => exact .literal finite

/-- A change puts its result together from proper subtrees of the node. -/
lemma RewritesTo.madeOf (chg : RewritesTo e new) : MadeFrom e new := by
  have inner {e part : Expr} (mem : part ∈ e.children) : MadeFrom e part :=
    .given (isInner_of_mem mem)
  have deeper {e part s : Expr} (mem : part ∈ e.children) (memPart : s ∈ part.children) :
      MadeFrom e s :=
    .given ⟨part, mem, .part memPart .root⟩
  cases chg with
  | addZero | subtractZero | multiplyOne | divideOne => exact inner mem_left
  | zeroAdd | oneMultiply => exact inner mem_right
  | powerOne => exact inner mem_first
  | either => exact inner mem_accept
  | addNegated neg built | subtractNegated neg built =>
    exact .binary (inner mem_left) (negated?_madeOf mem_right neg) built
  | negatedAdd neg built =>
    exact .binary (inner mem_right) (negated?_madeOf mem_left neg) built
  | zeroSubtract _ built | minusOneMultiply _ built => exact .unary (inner mem_right) built
  | multiplyMinusOne _ built => exact .unary (inner mem_left) built
  | @multiplyZero left right ty _ _ built =>
    exact .constant (s := .binary .multiply left right ty) .root (.inl built)
  | @cancel left right ty _ _ built =>
    exact .constant (s := .binary .subtract left right ty) .root (.inl built)
  | @powerZero fn base exp ty _ _ _ built =>
    exact .constant (s := .call fn [base, exp] ty) .root (.inr built)
  | multiplyNegations built =>
    exact .binary (deeper mem_left mem_operand) (deeper mem_right mem_operand) built
  | twice => exact deeper mem_operand mem_operand
  | choose =>
    split
    · exact inner mem_accept
    · exact inner mem_reject
  | literalFirst _ _ _ _ _ built => exact .binary (inner mem_right) (inner mem_left) built
  | nestLeft _ _ _ _ _ _ built nested =>
    exact .binary (.binary (inner mem_left) (deeper mem_right mem_left) built)
      (deeper mem_right mem_right) nested
  | double _ two built => exact .binary (twoFor?_madeOf two) (inner mem_left) built
  | @collect op left right ty a b c d term other sum _ _ splitLeft splitRight _ first second built
      product =>
    obtain ⟨termWithin, aWithin⟩ := splitTerm_within splitLeft
    obtain ⟨-, bWithin⟩ := splitTerm_within splitRight
    have innerA (x : Expr) (mem : x ∈ a) : IsInner x (.binary op left right ty) :=
      ⟨left, mem_left, aWithin x mem⟩
    have innerB (x : Expr) (mem : x ∈ b) : IsInner x (.binary op left right ty) :=
      ⟨right, mem_right, bWithin x mem⟩
    have madeC : MadeFrom (.binary op left right ty) c :=
      coefficient?_madeOf (fun x mem => .given (innerA x mem))
        (fun _ x mem => (innerB x mem).within) first
    have madeD : MadeFrom (.binary op left right ty) d := by
      refine coefficient?_madeOf (fun x mem => .given (innerB x mem)) ?_ second
      -- Where the second term has no coefficient, the first is one that is written in the tree.
      rintro rfl x mem
      obtain rfl : c = x := by simpa using mem
      cases a with
      | none => simp [coefficient?] at first
      | some own =>
        obtain rfl : own = c := by simpa [coefficient?] using first
        exact (innerA own rfl).within
    exact .binary (.binary madeC madeD built) (.given ⟨left, mem_left, termWithin⟩) product

end ShaderAlgebra.Expr
