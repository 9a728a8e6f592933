import Mathlib.Order.Monotone.Basic
import ShaderAlgebra.Proofs.Expr.Parts
import ShaderAlgebra.Proofs.Render.Spelling
import ShaderAlgebra.Proofs.Render.Unambiguous
import ShaderAlgebra.Render.Expr

/-!
# The text of an expression reads back

The text of an expression reads as that expression and as nothing else, once its types are
forgotten and a literal with a sign is taken for the sign before the absolute value
(`Expr.reads_text_iff`). Parentheses stand only where an operand binds more loosely than its place
demands, so the proof sets each place's demand beside a level of the grammar: the strength of an
operand that goes without parentheses lies at that level or above it.
-/

namespace ShaderAlgebra

open Strength (postfixForm assignment)

open Grammar

/-! ## What a text shows of an expression -/

/-- The mark of an operator. -/
def UnaryOp.mark : UnaryOp → Mark
  | .negate => .minus
  | .not => .bang

/-- The mark of an operator. -/
def BinaryOp.mark : BinaryOp → Mark
  | .add => .plus
  | .subtract => .minus
  | .multiply => .times
  | .divide => .slash
  | .modulo => .percent
  | .less => .less
  | .lessEqual => .lessEqual
  | .greater => .greater
  | .greaterEqual => .greaterEqual
  | .equal => .equal
  | .notEqual => .notEqual
  | .logicalAnd => .logicalAnd
  | .logicalOr => .logicalOr

lemma BinaryOp.strength_lt_unary (op : BinaryOp) : op.strength < Strength.unary := by
  cases op <;> decide

/-- How an operator is written. -/
lemma BinaryOp.toList_symbol (op : BinaryOp) : op.symbol.toList = op.mark.spelling := by
  cases op <;> rfl

/-- The mark that assigns by an operator. -/
lemma BinaryOp.exists_assignMark {op : BinaryOp} (asgn : op.isCompoundAssignable) :
    ∃ m : Mark, m.assignment? = some (some op.mark) ∧ m.spelling = op.symbol.toList ++ ['='] := by
  cases op with
  | add => exact ⟨.plusAssign, rfl, rfl⟩
  | subtract => exact ⟨.minusAssign, rfl, rfl⟩
  | multiply => exact ⟨.timesAssign, rfl, rfl⟩
  | divide => exact ⟨.slashAssign, rfl, rfl⟩
  | modulo => exact ⟨.percentAssign, rfl, rfl⟩
  | _ => exact absurd asgn (by decide)

/-- The phrase, with a minus before it if asked. -/
def Grammar.Phrase.signed (negative : Bool) (p : Phrase) : Phrase :=
  if negative then .before .minus p else p

/-- A literal as its text shows it: a sign before an absolute value. -/
def Literal.phrase : Literal → Phrase
  | .bool b => .truth b
  | .int i => .signed (i < 0) (.int i.toInt.natAbs)
  | .float x => .signed x.negative (.float x.abs)

namespace Expr

variable {e : Expr} {c : Char} {n : Nat} {allowed : Char → Prop} {ty : Ty} {name : String}

mutual

/-- An expression without its types, as its text shows it. -/
def phrase : Expr → Phrase
  | .literal value _ => value.phrase
  | .ident name _ => .name name
  | .field base name _ => .field base.phrase name
  | .index base position _ => .index base.phrase position.phrase
  | .unary op operand _ => .before op.mark operand.phrase
  | .binary op left right _ => .binary op.mark left.phrase right.phrase
  | .call function arguments _ => .call function (phrases arguments)
  | .conditional condition accept reject _ =>
    .conditional condition.phrase accept.phrase reject.phrase
  | .assign op target value _ => .assign (op.map BinaryOp.mark) target.phrase value.phrase

def phrases : List Expr → List Phrase
  | [] => []
  | e :: es => e.phrase :: phrases es

end

def isLiteral : Expr → Bool
  | .literal .. => true
  | _ => false

/-- What the language lets be written at a node: its name is an identifier, what it selects from is
not a literal, it assigns to something that can be assigned to by an operator that allows it, and a
number is finite. -/
def IsSpelled : Expr → Prop
  | .literal (.float x) _ => x.isFinite = true
  | .ident name _ => IsIdentifier name
  | .field base name _ => IsIdentifier name ∧ base.isLiteral = false
  | .index base _ _ => base.isLiteral = false
  | .call function _ _ => IsIdentifier function
  | .assign op target _ _ => target.isLvalue = true ∧ ∀ o ∈ op, o.isCompoundAssignable = true
  | _ => True

/-- Every node can be written. -/
def IsWritable (e : Expr) : Prop := ∀ s, Within s e → s.IsSpelled

lemma IsWritable.part {part : Expr} (writable : e.IsWritable) (mem : part ∈ e.children) :
    part.IsWritable :=
  fun s ins => writable s (.part mem ins)

lemma IsWritable.root (writable : e.IsWritable) : e.IsSpelled := writable e .root

/-! ## Levels -/

/-- The level of the grammar at which a form of some strength is derived. -/
def levelOf : Strength → Nat
  | 0 => 0
  | 1 => 1
  | 2 => 2
  | 3 => 3
  | 4 => 5
  | 5 => 9
  | 6 => 10
  | 7 => 12
  | 8 => 13
  | 9 => 14
  | _ => 15

lemma levelOf_mono {a b : Strength} (le : a ≤ b) : levelOf a ≤ levelOf b := by
  have step : ∀ s : Nat, levelOf s ≤ levelOf (s + 1) := by
    intro s
    rcases Nat.lt_or_ge s 10 with low | high
    · revert s
      decide
    · obtain ⟨k, rfl⟩ := Nat.exists_eq_add_of_le' high
      exact Nat.le_refl 15
  exact monotone_nat_of_le_succ step le

/-- Every form is at least an assignment. -/
lemma assignment_le (e : Expr) : Level.assignment ≤ levelOf e.strength := by
  refine levelOf_mono (a := 1) ?_
  cases e with
  | literal val =>
    rw [strength]
    split <;> decide
  | binary op => cases op <;> exact Nat.succ_le_succ (Nat.zero_le _)
  | _ => exact Nat.succ_le_succ (Nat.zero_le _)

lemma levelOf_primary_le : levelOf Strength.primary ≤ Level.primary := by decide

/-! ## Pieces of text -/

/-- The characters that may follow any expression. -/
def closers : List Char := [' ', ')', ']', ',', '[']

/-- The characters that may follow the expression: a point only where it cannot run into a
numeral. -/
def Follows (e : Expr) (c : Char) : Prop :=
  c ∈ closers ∨ (c = '.' ∧ Strength.postfixForm ≤ e.strength ∧ e.isLiteral = false)

/-- The characters spell a phrase of the level, whatever allowed character follows. -/
def Spells (allowed : Char → Prop) (level : Nat) (cs : List Char) (p : Phrase) : Prop :=
  ∃ ts, Scans allowed cs ts ∧ Derives (.level level) ts p

/-- The text spells the expression, at the level of its strength. -/
def IsFaithful (e : Expr) : Prop :=
  Spells e.Follows (levelOf e.strength) e.text.toList e.phrase

lemma notWordChar_of_mem_closers (closes : c ∈ closers ∨ c = '.') : isWordChar c = false := by
  simp only [closers, List.mem_cons, List.not_mem_nil, or_false] at closes
  rcases closes with (rfl | rfl | rfl | rfl | rfl) | rfl <;> rfl

lemma Follows.closes (follows : e.Follows c) (loose : e.strength < postfixForm) : c ∈ closers :=
  follows.resolve_right fun point => absurd point.2.1 (Nat.not_le.mpr loose)

section

variable (faith : e.IsFaithful)

include faith

/-- An expression in parentheses. -/
lemma IsFaithful.grouped (allowed : Char → Prop) :
    Spells allowed Level.primary ('(' :: (e.text.toList ++ [')'])) e.phrase := by
  obtain ⟨ts, scans, derives⟩ := faith
  have inner : Derives (.level Level.sequence) ts e.phrase := derives.loosenTo (Nat.zero_le _)
  have closing : Scans allowed [')'] [.mark .closeParen] :=
    scans_mark (m := .closeParen) fun _ _ => rfl
  have opening : Scans (fun _ => True) ['('] [.mark .openParen] :=
    scans_mark (m := .openParen) fun _ _ => rfl
  exact ⟨_, opening.followedBy (scans.append closing (.inl (by decide))), .group inner⟩

/-- An operand: without parentheses it has to bind tightly enough for its place and stand before a
character that may follow it. -/
lemma IsFaithful.placed {wrap : Bool} (top : n ≤ Level.primary)
    (bare : wrap = false → n ≤ levelOf e.strength ∧ ∀ c, allowed c → e.Follows c) :
    Spells allowed n (parenthesized wrap e.text).toList e.phrase := by
  cases wrap with
  | false =>
    obtain ⟨tight, fewer⟩ := bare rfl
    obtain ⟨ts, scans, derives⟩ := faith
    exact ⟨ts, scans.mono fewer, derives.loosenTo tight⟩
  | true =>
    obtain ⟨ts, scans, derives⟩ := faith.grouped allowed
    refine ⟨ts, ?_, derives.loosenTo top⟩
    simpa [parenthesized] using scans

/-- An operand that something other than a point follows. -/
lemma IsFaithful.operand (wrap : Bool) (top : n ≤ Level.primary)
    (tight : wrap = false → n ≤ levelOf e.strength) :
    Spells (· ∈ closers) n (parenthesized wrap e.text).toList e.phrase :=
  faith.placed top fun bare => ⟨tight bare, fun _ next => .inl next⟩

/-- What something is selected from. -/
lemma IsFaithful.base (oth : e.isLiteral = false) :
    Spells (fun c => c ∈ closers ∨ c = '.') Level.postfixForm
      (parenthesized (e.strength < postfixForm) e.text).toList e.phrase := by
  refine faith.placed (by decide) fun bare => ?_
  have tight : postfixForm ≤ e.strength := by simpa using bare
  exact ⟨levelOf_mono tight, fun c next => next.imp_right fun point => ⟨point, tight, oth⟩⟩

end

/-! ## Literals and names -/

/-- A numeral with a minus before it if asked. -/
lemma spells_signed (neg : Bool) {cs : List Char} {t : Token} {p : Phrase}
    (scans : Scans allowed (c :: cs) [t]) (digit : c.isDigit)
    (derives : Derives (.level Level.primary) [t] p) :
    Spells allowed (levelOf (if neg then Strength.unary else Strength.primary))
      ((if neg then ['-'] else []) ++ c :: cs) (.signed neg p) := by
  cases neg with
  | false => exact ⟨[t], scans, derives.loosenTo (by decide)⟩
  | true =>
    have apart : Mark.minus.joins c = false := by
      rw [joins_minus, Bool.or_eq_false_iff, beq_eq_false_iff_ne, beq_eq_false_iff_ne]
      constructor <;> rintro rfl <;> exact absurd digit (by decide)
    have minus : Scans (· = c) ['-'] [.mark .minus] :=
      scans_mark (m := .minus) fun d next => next ▸ apart
    exact ⟨_, minus.append scans rfl, .before rfl (derives.loosenTo (by decide))⟩

lemma isFaithful_literal {val : Literal} (finite : (Expr.literal val ty).IsSpelled) :
    (Expr.literal val ty).IsFaithful := by
  have follows : ∀ c, (Expr.literal val ty).Follows c → c ∈ closers := by
    rintro c (next | ⟨-, -, oth⟩)
    · exact next
    · exact absurd oth (by simp [isLiteral])
  have apart : ∀ c ∈ closers, c.isDigit = false ∧ c ≠ '.' := by
    have all : closers.all (fun c => !c.isDigit && c != '.') := by decide
    simpa using all
  unfold IsFaithful
  cases val with
  | bool b =>
    have scans (cs : List Char) (t : Token) (word : isWord cs) (spelled : token? cs = some t) :
        Scans (Expr.literal (.bool b) ty).Follows cs [t] :=
      .token spelled fun c next =>
        stops_word word (notWordChar_of_mem_closers (.inl (follows c next)))
    have derives := (Derives.truth b).loosenTo levelOf_primary_le
    cases b with
    | true => exact ⟨_, scans "true".toList _ (by decide) rfl, derives⟩
    | false => exact ⟨_, scans "false".toList _ (by decide) rfl, derives⟩
  | int i =>
    have sign : decide (i < 0) = decide (i.toInt < 0) := decide_eq_decide.mpr Int32.lt_iff_toInt_lt
    obtain ⟨c, cs, digs, digit⟩ := exists_digit_toDigits i.toInt.natAbs
    have scans := (scans_int i.toInt.natAbs).mono fun c next => apart c (follows c next)
    rw [digs] at scans
    have spelled := spells_signed (decide (i.toInt < 0)) scans digit (.int _)
    rw [show (Expr.literal (.int i) ty).text = toString i.toInt from rfl, toList_toString, digs]
    simpa [strength, phrase, Literal.phrase, Literal.isNegative, sign] using spelled
  | float x =>
    obtain ⟨c, cs, text, digit⟩ := exists_digit_unsignedText finite
    have scans := (scans_float finite).mono fun c next => (apart c (follows c next)).1
    rw [text] at scans
    rw [show (Expr.literal (.float x) ty).text = Literal.floatText x from rfl,
      toList_floatText finite, text]
    exact spells_signed x.negative scans digit (.float _)

lemma isFaithful_ident (valid : IsIdentifier name) : (Expr.ident name ty).IsFaithful := by
  refine ⟨_, .token (token?_of_isIdentifier valid) fun c next => stops_word valid.1 ?_,
    (Derives.name name).loosenTo levelOf_primary_le⟩
  exact notWordChar_of_mem_closers (next.imp_right And.left)

/-! ## Selections and calls -/

/-- A point and a name after it. -/
lemma scans_member (valid : IsIdentifier name) :
    Scans (fun c => c ∈ closers ∨ c = '.') ('.' :: name.toList) [.mark .dot, .word name] := by
  obtain ⟨c, cs, lts⟩ : ∃ c cs, name.toList = c :: cs :=
    List.exists_cons_of_ne_nil fun none => absurd valid.1 (by rw [none]; decide)
  have starts := valid.1
  rw [lts, isWord_cons] at starts
  have word : Scans (fun c => c ∈ closers ∨ c = '.') name.toList [.word name] :=
    .token (token?_of_isIdentifier valid) fun d next =>
      stops_word valid.1 (notWordChar_of_mem_closers next)
  have point : Scans (· = c) ['.'] [.mark .dot] :=
    scans_mark (m := .dot) fun d next => next ▸ not_digit_of_starts starts.1
  rw [lts] at word ⊢
  exact point.append word rfl

lemma isFaithful_field {base : Expr} (faith : base.IsFaithful) (valid : IsIdentifier name)
    (oth : base.isLiteral = false) : (Expr.field base name ty).IsFaithful := by
  obtain ⟨ts, scans, derives⟩ := faith.base oth
  refine ⟨_, ?_, Derives.field derives name⟩
  have whole := (scans.append (scans_member valid) (.inr rfl)).mono
    fun c (next : (Expr.field base name ty).Follows c) => next.imp_right And.left
  simpa [text] using whole

lemma isFaithful_index {base pos : Expr} (faith : base.IsFaithful) (inner : pos.IsFaithful)
    (oth : base.isLiteral = false) : (Expr.index base pos ty).IsFaithful := by
  obtain ⟨ts, scans, derives⟩ := faith.base oth
  obtain ⟨us, scansInner, derivesInner⟩ := inner
  refine ⟨_, ?_, Derives.index derives (derivesInner.loosenTo (Nat.zero_le _))⟩
  have opening : Scans (fun _ => True) ['['] [.mark .openBracket] :=
    scans_mark (m := .openBracket) fun _ _ => rfl
  have closing : Scans (Expr.index base pos ty).Follows [']'] [.mark .closeBracket] :=
    scans_mark (m := .closeBracket) fun _ _ => rfl
  have subscript := opening.followedBy (scansInner.append closing (.inl (by decide)))
  simpa [text] using scans.append subscript (.inl (by decide))

/-- Tokens of phrases with commas between them. -/
inductive Lists : List Token → List Phrase → Prop
  | one {ts : List Token} {p : Phrase} (first : Derives (.level Level.assignment) ts p) :
      Lists ts [p]
  | more {ts us : List Token} {p : Phrase} {ps : List Phrase}
      (first : Derives (.level Level.assignment) ts p) (rest : Lists us ps) :
      Lists (ts ++ .mark .comma :: us) (p :: ps)

/-- A call goes on with the phrases of a list. -/
lemma Lists.continues {us : List Token} {ps : List Phrase} (lists : Lists us ps) {f : String}
    {ts : List Token} {qs : List Phrase} (earlier : Derives .parameters ts (.call f qs)) :
    Derives .parameters (ts ++ .mark .comma :: us) (.call f (qs ++ ps)) := by
  induction lists generalizing ts qs with
  | one fst => exact earlier.next fst
  | more fst _ ih => simpa using ih (earlier.next fst)

lemma Lists.opens {us : List Token} {ps : List Phrase} (lists : Lists us ps) (f : String) :
    Derives .parameters (.word f :: .mark .openParen :: us) (.call f ps) := by
  cases lists with
  | one fst => exact .first f fst
  | more fst rest => exact rest.continues (.first f fst)

/-- The text of arguments lists their phrases. -/
lemma lists_arguments (e : Expr) (es : List Expr) (faith : ∀ a ∈ e :: es, a.IsFaithful) :
    ∃ us, Scans (· ∈ closers) (textArguments (e :: es)).toList us
      ∧ Lists us (phrases (e :: es)) := by
  have tight (a : Expr) (bare : decide (a.strength ≤ assignment) = false) :
      levelOf assignment ≤ levelOf a.strength :=
    levelOf_mono (Nat.le_of_lt (by simpa using bare))
  induction es generalizing e with
  | nil =>
    obtain ⟨ts, scans, derives⟩ := (faith e (by simp)).operand _ (by decide) (tight e)
    exact ⟨ts, scans, .one derives⟩
  | cons next es ih =>
    obtain ⟨ts, scans, derives⟩ := (faith e (by simp)).operand _ (by decide) (tight e)
    obtain ⟨us, scansRest, lists⟩ := ih next fun a mem => faith a (List.mem_cons_of_mem _ mem)
    refine ⟨_, ?_, .more derives lists⟩
    have comma : Scans (fun _ => True) [','] [.mark .comma] :=
      scans_mark (m := .comma) fun _ _ => rfl
    have rest := comma.followedBy ((Scans.blank (c := ' ') rfl).followedBy scansRest)
    simpa [textArguments] using scans.append rest (by decide)

lemma isFaithful_call {fn : String} {args : List Expr} (valid : IsIdentifier fn)
    (faith : ∀ a ∈ args, a.IsFaithful) : (Expr.call fn args ty).IsFaithful := by
  have name : Scans (· = '(') fn.toList [.word fn] :=
    .token (token?_of_isIdentifier valid) fun c next => stops_word valid.1 (by rw [next]; rfl)
  have opening : Scans (fun _ => True) ['('] [.mark .openParen] :=
    scans_mark (m := .openParen) fun _ _ => rfl
  have closing : Scans (Expr.call fn args ty).Follows [')'] [.mark .closeParen] :=
    scans_mark (m := .closeParen) fun _ _ => rfl
  cases args with
  | nil =>
    refine ⟨_, ?_, Derives.empty fn⟩
    simpa [text, textArguments] using name.append (opening.followedBy closing) rfl
  | cons e es =>
    obtain ⟨us, scans, lists⟩ := lists_arguments e es faith
    refine ⟨_, ?_, Derives.call (lists.opens fn)⟩
    have inner := opening.followedBy (scans.append closing (by decide))
    simpa [text] using name.append inner rfl

/-! ## Operators -/

/-- What an operand that binds as tightly as a sign begins with, unless that is a minus. -/
def Begins (c : Char) : Prop := isWordChar c = true ∨ c = '(' ∨ c = '!'

lemma begins_of_starts (starts : (c.isAlpha || c == '_')) : Begins c := by
  simp only [Begins, isWordChar, Char.isAlphanum, Bool.or_eq_true] at starts ⊢
  tauto

lemma begins_of_digit (digit : c.isDigit) : Begins c := by
  simp [Begins, isWordChar, Char.isAlphanum, digit]

/-- The text begins with one of those characters. -/
def Opens (text : String) : Prop := ∃ c cs, text.toList = c :: cs ∧ Begins c

lemma opens_identifier (valid : IsIdentifier name) (rest : String) : Opens (name ++ rest) := by
  obtain ⟨c, cs, lts⟩ : ∃ c cs, name.toList = c :: cs :=
    List.exists_cons_of_ne_nil fun none => absurd valid.1 (by rw [none]; decide)
  have starts := valid.1
  rw [lts, isWord_cons] at starts
  exact ⟨c, cs ++ rest.toList, by simp [lts], begins_of_starts starts.1⟩

lemma opens_parenthesized {wrap : Bool} {text rest : String}
    (bare : wrap = false → Opens text) : Opens (parenthesized wrap text ++ rest) := by
  cases wrap with
  | true => exact ⟨'(', _, by simp [parenthesized]; rfl, .inr (.inl rfl)⟩
  | false =>
    obtain ⟨c, cs, opens, begins⟩ := bare rfl
    exact ⟨c, cs ++ rest.toList, by simp [parenthesized, opens], begins⟩

lemma opens_literal {val : Literal} (finite : (Expr.literal val ty).IsSpelled)
    (unsigned : val.isNegative = false) : Opens val.text := by
  cases val with
  | bool b =>
    cases b with
    | true => exact ⟨'t', ['r', 'u', 'e'], rfl, .inl rfl⟩
    | false => exact ⟨'f', ['a', 'l', 's', 'e'], rfl, .inl rfl⟩
  | int i =>
    have nonneg : ¬ i.toInt < 0 := fun below =>
      absurd unsigned (by simpa [Literal.isNegative] using Int32.lt_iff_toInt_lt.mpr below)
    obtain ⟨c, cs, digs, digit⟩ := exists_digit_toDigits i.toInt.natAbs
    refine ⟨c, cs, ?_, begins_of_digit digit⟩
    rw [Literal.text, toList_toString, if_neg nonneg, digs]
    rfl
  | float x =>
    obtain ⟨c, cs, digs, digit⟩ := exists_digit_unsignedText finite
    have pos : x.negative = false := unsigned
    refine ⟨c, cs, ?_, begins_of_digit digit⟩
    rw [Literal.text, toList_floatText finite, pos, digs]
    rfl

/-- An expression that binds as tightly as a selection does not start with a minus. -/
lemma startsWithMinus_of_tight (tight : postfixForm ≤ e.strength) : e.startsWithMinus = false := by
  cases e with
  | literal val ty =>
    cases sign : val.isNegative with
    | false => exact sign
    | true => simp [strength, sign, postfixForm, Strength.unary] at tight
  | unary => exact absurd tight (show ¬ postfixForm ≤ Strength.unary by decide)
  | _ => rfl

lemma opens_text (writable : e.IsWritable) (tight : Strength.unary ≤ e.strength)
    (unsigned : e.startsWithMinus = false) : Opens e.text := by
  induction e using Expr.induction with
  | node e ih =>
    have base (b : Expr) (mem : b ∈ e.children) (rest : String) :
        Opens (parenthesized (b.strength < postfixForm) b.text ++ rest) := by
      refine opens_parenthesized fun bare => ?_
      have tight : postfixForm ≤ b.strength := by simpa using bare
      exact ih b mem (writable.part mem) (Nat.le_trans (by decide) tight)
        (startsWithMinus_of_tight tight)
    have spelled := writable.root
    cases e with
    | literal val ty => exact opens_literal spelled unsigned
    | ident name ty => simpa [text] using opens_identifier spelled ""
    | field b name ty => simpa [text, String.append_assoc] using base b mem_base ("." ++ name)
    | index b pos ty =>
      simpa [text, String.append_assoc] using base b mem_indexed ("[" ++ pos.text ++ "]")
    | unary op opd ty =>
      cases op with
      | negate => exact absurd unsigned (by simp [startsWithMinus])
      | not => exact ⟨'!', _, by simp [text, UnaryOp.symbol]; rfl, .inr (.inr rfl)⟩
    | call fn args ty =>
      simpa [text, String.append_assoc] using
        opens_identifier spelled ("(" ++ textArguments args ++ ")")
    | binary op => exact absurd tight (Nat.not_le.mpr op.strength_lt_unary)
    | conditional => exact absurd tight (show ¬ Strength.unary ≤ Strength.conditional by decide)
    | assign => exact absurd tight (show ¬ Strength.unary ≤ assignment by decide)

lemma joins_of_begins (begins : Begins c) (op : UnaryOp) : op.mark.joins c = false := by
  have notMinus : c ≠ '-' := by
    rintro rfl
    exact absurd begins (by simp [Begins, isWordChar])
  have notEquals : c ≠ '=' := by
    rintro rfl
    exact absurd begins (by simp [Begins, isWordChar])
  cases op with
  | negate => simp [UnaryOp.mark, joins_minus, notMinus, notEquals]
  | not => simp [UnaryOp.mark, joins_bang, notEquals]

lemma isFaithful_unary {op : UnaryOp} {opd : Expr} (writable : opd.IsWritable)
    (faith : opd.IsFaithful) : (Expr.unary op opd ty).IsFaithful := by
  have loose : (Expr.unary op opd ty).strength < postfixForm :=
    show Strength.unary < postfixForm by decide
  generalize wrapped : (decide (opd.strength < Strength.unary) || opd.startsWithMinus) = wrap
  have bare : wrap = false → Strength.unary ≤ opd.strength ∧ opd.startsWithMinus = false := by
    rintro rfl
    simpa using wrapped
  obtain ⟨ts, scans, derives⟩ := faith.operand (n := Level.unary) wrap (by decide)
    fun none => levelOf_mono (bare none).1
  obtain ⟨c, cs, opens, begins⟩ : Opens (parenthesized wrap opd.text ++ "") :=
    opens_parenthesized fun none => opens_text writable (bare none).1 (bare none).2
  rw [String.append_empty] at opens
  have sign : Scans (· = c) op.mark.spelling [.mark op.mark] :=
    scans_mark fun d next => next ▸ joins_of_begins begins op
  rw [opens] at scans
  have whole := (sign.append scans rfl).mono
    fun d (next : (Expr.unary op opd ty).Follows d) => next.closes loose
  have isSign : op.mark.isSign := by cases op <;> rfl
  have spelling : op.symbol.toList = op.mark.spelling := by cases op <;> rfl
  refine ⟨_, ?_, .before isSign derives⟩
  rw [text, wrapped, String.toList_append, opens, spelling]
  exact whole

/-- Two operands with a mark between them. -/
lemma spells_between {l m : Nat} {cs ds : List Char} {p q r : Phrase} {mark : Mark}
    (left : Spells (· ∈ closers) m cs p) (right : Spells allowed n ds q)
    (joined : ∀ ts us, Derives (.level m) ts p → Derives (.level n) us q →
      Derives (.level l) (ts ++ .mark mark :: us) r) :
    Spells allowed l (cs ++ ' ' :: (mark.spelling ++ ' ' :: ds)) r := by
  obtain ⟨ts, scans, derives⟩ := left
  obtain ⟨us, scansRight, derivesRight⟩ := right
  exact ⟨_, scans.append (scans_spaced mark scansRight) (by decide),
    joined ts us derives derivesRight⟩

/-- A form that no point follows needs to be spelled before the other characters only. -/
lemma isFaithful_of_closers (loose : e.strength < postfixForm)
    (spelled : Spells (· ∈ closers) (levelOf e.strength) e.text.toList e.phrase) :
    e.IsFaithful := by
  obtain ⟨ts, scans, derives⟩ := spelled
  exact ⟨ts, scans.mono fun c next => next.closes loose, derives⟩

lemma isFaithful_binary {op : BinaryOp} {left right : Expr} (fst : left.IsFaithful)
    (snd : right.IsFaithful) : (Expr.binary op left right ty).IsFaithful := by
  have level : op.mark.binaryLevel? = some (levelOf op.strength) := by cases op <;> rfl
  have next : levelOf op.strength + 1 ≤ levelOf (op.strength + 1) := by cases op <;> decide
  have top : levelOf op.strength + 1 ≤ Level.primary := by cases op <;> decide
  have spelledLeft := fst.operand (left.strength < op.strength) (Nat.le_of_succ_le top)
    fun bare => levelOf_mono (by simpa using bare)
  have spelledRight := snd.operand (right.strength ≤ op.strength) top
    fun bare => Nat.le_trans next (levelOf_mono (Nat.succ_le_of_lt (by simpa using bare)))
  refine isFaithful_of_closers (Nat.lt_trans op.strength_lt_unary (by decide)) ?_
  simpa [text, phrase, strength, op.toList_symbol] using
    spells_between spelledLeft spelledRight fun _ _ => Derives.binary level

lemma isFaithful_conditional {cond acc rej : Expr} (fst : cond.IsFaithful) (snd : acc.IsFaithful)
    (third : rej.IsFaithful) : (Expr.conditional cond acc rej ty).IsFaithful := by
  have spelledCondition := fst.operand (n := Level.conditional + 1)
    (cond.strength ≤ Strength.conditional) (by decide)
    fun bare => levelOf_mono (a := 3) (of_decide_eq_false bare |> Nat.lt_of_not_le)
  have spelledAccept := snd.operand (n := Level.sequence)
    (acc.strength ≤ assignment) (by decide) fun _ => Nat.zero_le _
  have spelledReject := third.operand (n := Level.assignment)
    (rej.strength < Strength.conditional) (by decide)
    fun bare => Nat.le_trans (by decide) (levelOf_mono (Nat.not_lt.mp (of_decide_eq_false bare)))
  obtain ⟨ts, scansCondition, derivesCondition⟩ := spelledCondition
  obtain ⟨us, scansAccept, derivesAccept⟩ := spelledAccept
  obtain ⟨vs, scansReject, derivesReject⟩ := spelledReject
  refine isFaithful_of_closers (show Strength.conditional < postfixForm by decide)
    ⟨_, ?_, .conditional derivesCondition derivesAccept derivesReject⟩
  have choice := scansAccept.append (scans_spaced .colon scansReject) (by decide)
  have whole := scansCondition.append (scans_spaced .question choice) (by decide)
  simpa [text, Mark.spelling] using whole

/-- What can be assigned to is a name or is selected from one. -/
lemma tight_of_isLvalue (lvalue : e.isLvalue) : postfixForm ≤ e.strength := by
  cases e with
  | ident => exact (by decide : postfixForm ≤ Strength.primary)
  | field | index => exact Nat.le_refl postfixForm
  | _ => exact absurd lvalue (by simp [isLvalue])

lemma isFaithful_assign {op : Option BinaryOp} {tgt val : Expr} (fst : tgt.IsFaithful)
    (snd : val.IsFaithful) (lvalue : tgt.isLvalue) (asgn : ∀ o ∈ op, o.isCompoundAssignable) :
    (Expr.assign op tgt val ty).IsFaithful := by
  obtain ⟨ts, scans, derives⟩ := fst
  have spelledTarget : Spells (· ∈ closers) Level.unary tgt.text.toList tgt.phrase :=
    ⟨ts, scans.mono fun _ next => .inl next,
      derives.loosenTo (Nat.le_trans (by decide) (levelOf_mono (tight_of_isLvalue lvalue)))⟩
  obtain ⟨us, scansValue, derivesValue⟩ := snd
  have spelledValue : Spells (· ∈ closers) Level.assignment val.text.toList val.phrase :=
    ⟨us, scansValue.mono fun _ next => .inl next, derivesValue.loosenTo val.assignment_le⟩
  refine isFaithful_of_closers (show assignment < postfixForm by decide) ?_
  show Spells _ Level.assignment _ _
  cases op with
  | none =>
    simpa [text, phrase, Mark.spelling] using spells_between spelledTarget spelledValue
      fun _ _ => Derives.assign (m := .assign) rfl
  | some op =>
    obtain ⟨m, stores, spelling⟩ := BinaryOp.exists_assignMark (asgn op rfl)
    simpa [text, phrase, spelling] using spells_between spelledTarget spelledValue
      fun _ _ => Derives.assign stores

/-! ## The text reads back -/

lemma isFaithful_of_isWritable (writable : e.IsWritable) : e.IsFaithful := by
  induction e using Expr.induction with
  | node e ih =>
    have parts (part : Expr) (mem : part ∈ e.children) : part.IsFaithful :=
      ih part mem (writable.part mem)
    have spelled := writable.root
    cases e with
    | literal => exact isFaithful_literal spelled
    | ident => exact isFaithful_ident spelled
    | field base => exact isFaithful_field (parts base mem_base) spelled.1 spelled.2
    | index base pos =>
      exact isFaithful_index (parts base mem_indexed) (parts pos mem_position) spelled
    | unary op opd =>
      exact isFaithful_unary (writable.part mem_operand) (parts opd mem_operand)
    | binary op left right => exact isFaithful_binary (parts left mem_left) (parts right mem_right)
    | call => exact isFaithful_call spelled parts
    | conditional cond acc rej =>
      exact isFaithful_conditional (parts cond mem_condition)
        (parts acc mem_accept) (parts rej mem_reject)
    | assign op tgt val =>
      exact isFaithful_assign (parts tgt mem_target) (parts val mem_value) spelled.1 spelled.2

/-- The text of an expression reads as that expression, up to types and the sign of literals, and
as nothing else. -/
theorem reads_text_iff {e : Expr} (writable : e.IsWritable) (p : Phrase) :
    Reads e.text p ↔ p = e.phrase := by
  obtain ⟨ts, scans, derives⟩ := isFaithful_of_isWritable writable
  have reads : Reads e.text e.phrase := by
    refine ⟨ts, ?_, derives.loosenTo (Nat.zero_le _)⟩
    simpa using scans [] [] (by simp) .done
  constructor
  · intro other
    exact other.unique reads
  · rintro rfl
    exact reads

/-- A difference whose left side has two signs and whose right side is a choice between an
assignment and a selection. -/
def nestedSigns : Expr :=
  .binary .subtract (.unary .negate (.literal (.int (-1)) .int) .int)
    (.conditional
      (.binary .less (.ident "a" .float) (.literal (.float ⟨true, 126, 0⟩) .float) .bool)
      (.assign (some .add) (.ident "b" .float) (.ident "a" .float) .float)
      (.field (.binary .subtract (.ident "u" (.vec .two)) (.ident "v" (.vec .two)) (.vec .two)) "x"
        .float)
      .float)
    .float

/-- Two signs, and operands that need parentheses. -/
theorem reads_text_nestedSigns :
    nestedSigns.IsWritable
      ∧ nestedSigns.text = "-(-1) - (a < -0.5 ? (b += a) : (u - v).x)"
      ∧ ∀ p, Reads nestedSigns.text p ↔
        p = .binary .minus (.before .minus (.before .minus (.int 1)))
          (.conditional (.binary .less (.name "a") (.before .minus (.float ⟨false, 126, 0⟩)))
            (.assign (some .plus) (.name "b") (.name "a"))
            (.field (.binary .minus (.name "u") (.name "v")) "x")) := by
  have writable : nestedSigns.IsWritable := by
    intro s inside
    rw [← mem_nodes] at inside
    simp only [nestedSigns, nodes, List.cons_append, List.nil_append, List.mem_cons,
      List.not_mem_nil, or_false] at inside
    rcases inside with rfl | rfl | rfl | rfl | rfl | rfl | rfl | rfl | rfl | rfl | rfl | rfl | rfl
      | rfl <;> simp [IsSpelled, IsIdentifier, isWord, isLiteral, isLvalue] <;> decide
  exact ⟨writable, by decide +kernel, fun p => reads_text_iff writable p⟩

end Expr

end ShaderAlgebra
