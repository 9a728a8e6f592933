import Mathlib.Tactic.Lemma
import ShaderAlgebra.Number.Floating

/-!
# The grammar of shader expressions

What a text says, before anything is known of types. A text splits into tokens by the longest match
(`Splits`), and the tokens derive a phrase by the layered grammar of the shading language
(`Derives`): binary operators group to the left, conditionals and assignments to the right, signs
stand before their operand, and selections, subscripts and steps after it. `Reads` puts the two
together.

The grammar has every operator of the language, also those that no tree of this library holds, so
that what is shown about it is not owed to what it leaves out. Of the numerals it has the plain
decimal ones.
-/

namespace ShaderAlgebra.Grammar

/-! ## Tokens -/

/-- The marks that an expression is punctuated with. -/
inductive Mark where
  | openParen
  | closeParen
  | openBracket
  | closeBracket
  | dot
  | comma
  | question
  | colon
  | increment
  | decrement
  | plus
  | minus
  | bang
  | tilde
  | times
  | slash
  | percent
  | shiftLeft
  | shiftRight
  | less
  | greater
  | lessEqual
  | greaterEqual
  | equal
  | notEqual
  | bitAnd
  | bitXor
  | bitOr
  | logicalAnd
  | logicalXor
  | logicalOr
  | assign
  | timesAssign
  | slashAssign
  | percentAssign
  | plusAssign
  | minusAssign
  | shiftLeftAssign
  | shiftRightAssign
  | andAssign
  | xorAssign
  | orAssign
deriving DecidableEq, Repr

/-- How a mark is written. -/
def Mark.spelling : Mark → List Char
  | .openParen => ['(']
  | .closeParen => [')']
  | .openBracket => ['[']
  | .closeBracket => [']']
  | .dot => ['.']
  | .comma => [',']
  | .question => ['?']
  | .colon => [':']
  | .increment => ['+', '+']
  | .decrement => ['-', '-']
  | .plus => ['+']
  | .minus => ['-']
  | .bang => ['!']
  | .tilde => ['~']
  | .times => ['*']
  | .slash => ['/']
  | .percent => ['%']
  | .shiftLeft => ['<', '<']
  | .shiftRight => ['>', '>']
  | .less => ['<']
  | .greater => ['>']
  | .lessEqual => ['<', '=']
  | .greaterEqual => ['>', '=']
  | .equal => ['=', '=']
  | .notEqual => ['!', '=']
  | .bitAnd => ['&']
  | .bitXor => ['^']
  | .bitOr => ['|']
  | .logicalAnd => ['&', '&']
  | .logicalXor => ['^', '^']
  | .logicalOr => ['|', '|']
  | .assign => ['=']
  | .timesAssign => ['*', '=']
  | .slashAssign => ['/', '=']
  | .percentAssign => ['%', '=']
  | .plusAssign => ['+', '=']
  | .minusAssign => ['-', '=']
  | .shiftLeftAssign => ['<', '<', '=']
  | .shiftRightAssign => ['>', '>', '=']
  | .andAssign => ['&', '=']
  | .xorAssign => ['^', '=']
  | .orAssign => ['|', '=']

/-- Every mark. -/
def Mark.all : List Mark :=
  [.openParen, .closeParen, .openBracket, .closeBracket, .dot, .comma, .question, .colon,
   .increment, .decrement, .plus, .minus, .bang, .tilde, .times, .slash, .percent, .shiftLeft,
   .shiftRight, .less, .greater, .lessEqual, .greaterEqual, .equal, .notEqual, .bitAnd, .bitXor,
   .bitOr, .logicalAnd, .logicalXor, .logicalOr, .assign, .timesAssign, .slashAssign,
   .percentAssign, .plusAssign, .minusAssign, .shiftLeftAssign, .shiftRightAssign, .andAssign,
   .xorAssign, .orAssign]

/-- The mark that is written so. -/
def Mark.ofSpelling? (cs : List Char) : Option Mark := Mark.all.find? (·.spelling == cs)

inductive Token where
  | word (name : String)
  | truth (value : Bool)
  | int (value : Nat)
  | float (value : Single)
  | mark (mark : Mark)
deriving DecidableEq, Repr

/-- Whether a character may stand in a word. -/
def isWordChar (c : Char) : Bool := c.isAlphanum || c == '_'

/-- Whether the characters make a word: letters, digits and underscores, and no digit first. -/
def isWord : List Char → Bool
  | [] => false
  | c :: cs => (c.isAlpha || c == '_') && cs.all isWordChar

/-- Whether the text names something: it is a word, and not one of the two that stand for truth
values. -/
def IsIdentifier (name : String) : Prop :=
  isWord name.toList = true ∧ name ≠ "true" ∧ name ≠ "false"

instance (name : String) : Decidable (IsIdentifier name) :=
  inferInstanceAs (Decidable (_ ∧ _ ∧ _))

/-- What the digits before and after a decimal point are worth. -/
def decimalWorth (whole fraction : List Char) : Rat :=
  (Nat.ofDigitChars 10 (whole ++ fraction) 0 : Nat) / 10 ^ fraction.length

/-- The numeral that the characters spell. An integer has no leading zero, which would make it
octal; a decimal with a point stands for the number nearest to it. -/
def numeral? (cs : List Char) : Option Token :=
  let whole := cs.takeWhile Char.isDigit
  match cs.dropWhile Char.isDigit with
  | [] =>
    if whole = [] ∨ (whole.head? = some '0' ∧ whole ≠ ['0']) then none
    else some (.int (Nat.ofDigitChars 10 whole 0))
  | '.' :: fraction =>
    if (whole = [] ∧ fraction = []) ∨ fraction.all Char.isDigit = false then none
    else some (.float (Floating.ofMagnitude false (decimalWorth whole fraction)))
  | _ => none

/-- The token that a word is. -/
def wordToken (name : String) : Token :=
  if name = "true" then .truth true else if name = "false" then .truth false else .word name

/-- The token that the characters spell, if they spell exactly one. -/
def token? (cs : List Char) : Option Token :=
  if isWord cs then some (wordToken (String.ofList cs))
  else ((Mark.ofSpelling? cs).map .mark).or (numeral? cs)

lemma token?_eq_none {cs : List Char} (word : isWord cs = false)
    (mark : Mark.ofSpelling? cs = none) (numeral : numeral? cs = none) : token? cs = none := by
  simp [token?, word, mark, numeral]

/-- How a text splits into tokens: blanks are passed over, and every token is the longest that can
be read where it starts. -/
inductive Splits : List Char → List Token → Prop
  | done : Splits [] []
  | blank {c : Char} {rest : List Char} {tokens : List Token} (space : c.isWhitespace = true)
      (after : Splits rest tokens) : Splits (c :: rest) tokens
  | token {lexeme rest : List Char} {token : Token} {tokens : List Token}
      (spelled : token? lexeme = some token)
      (longest : ∀ longer, (token? longer).isSome = true → longer <+: lexeme ++ rest →
        longer.length ≤ lexeme.length)
      (after : Splits rest tokens) :
      Splits (lexeme ++ rest) (token :: tokens)

/-! ## Phrases -/

/-- An expression as its text shows it. -/
inductive Phrase where
  | truth (value : Bool)
  | int (value : Nat)
  | float (value : Single)
  | name (name : String)
  | field (base : Phrase) (name : String)
  | index (base position : Phrase)
  | call (function : String) (arguments : List Phrase)
  | before (sign : Mark) (operand : Phrase)
  | after (operand : Phrase) (step : Mark)
  | binary (op : Mark) (left right : Phrase)
  | conditional (condition accept reject : Phrase)
  | assign (op : Option Mark) (target value : Phrase)
  | sequence (first second : Phrase)
deriving Repr

/-! The layers of the grammar are numbered, loosest first. -/

namespace Level

def sequence : Nat := 0

def assignment : Nat := 1

def conditional : Nat := 2

def unary : Nat := 14

def postfixForm : Nat := 15

def primary : Nat := 16

end Level

namespace Mark

/-- The level of a binary operator. -/
def binaryLevel? : Mark → Option Nat
  | .logicalOr => some 3
  | .logicalXor => some 4
  | .logicalAnd => some 5
  | .bitOr => some 6
  | .bitXor => some 7
  | .bitAnd => some 8
  | .equal | .notEqual => some 9
  | .less | .greater | .lessEqual | .greaterEqual => some 10
  | .shiftLeft | .shiftRight => some 11
  | .plus | .minus => some 12
  | .times | .slash | .percent => some 13
  | _ => none

/-- The operator that an assignment applies before it stores, if it applies one. -/
def assignment? : Mark → Option (Option Mark)
  | .assign => some none
  | .timesAssign => some (some .times)
  | .slashAssign => some (some .slash)
  | .percentAssign => some (some .percent)
  | .plusAssign => some (some .plus)
  | .minusAssign => some (some .minus)
  | .shiftLeftAssign => some (some .shiftLeft)
  | .shiftRightAssign => some (some .shiftRight)
  | .andAssign => some (some .bitAnd)
  | .xorAssign => some (some .bitXor)
  | .orAssign => some (some .bitOr)
  | _ => none

/-- Whether the mark counts up or down. -/
def isStep : Mark → Bool
  | .increment | .decrement => true
  | _ => false

/-- Whether the mark may stand before its operand. -/
def isSign : Mark → Bool
  | .plus | .minus | .bang | .tilde => true
  | m => m.isStep

end Mark

/-! ## Derivations -/

/-- What tokens are derived as: an expression of some level, or a call whose arguments are not yet
closed. -/
inductive Category where
  | level (level : Nat)
  | parameters

/-- The grammar. A phrase of one level is also a phrase of the looser ones. -/
inductive Derives : Category → List Token → Phrase → Prop
  | truth (b : Bool) : Derives (.level Level.primary) [.truth b] (.truth b)
  | int (n : Nat) : Derives (.level Level.primary) [.int n] (.int n)
  | float (x : Single) : Derives (.level Level.primary) [.float x] (.float x)
  | name (x : String) : Derives (.level Level.primary) [.word x] (.name x)
  | group {ts : List Token} {p : Phrase} (inner : Derives (.level Level.sequence) ts p) :
      Derives (.level Level.primary) (.mark .openParen :: ts ++ [.mark .closeParen]) p
  | field {ts : List Token} {p : Phrase} (base : Derives (.level Level.postfixForm) ts p)
      (name : String) :
      Derives (.level Level.postfixForm) (ts ++ [.mark .dot, .word name]) (.field p name)
  | index {ts us : List Token} {p q : Phrase} (base : Derives (.level Level.postfixForm) ts p)
      (position : Derives (.level Level.sequence) us q) :
      Derives (.level Level.postfixForm) (ts ++ .mark .openBracket :: us ++ [.mark .closeBracket])
        (.index p q)
  | after {ts : List Token} {p : Phrase} {m : Mark}
      (operand : Derives (.level Level.postfixForm) ts p) (step : m.isStep = true) :
      Derives (.level Level.postfixForm) (ts ++ [.mark m]) (.after p m)
  | empty (f : String) :
      Derives (.level Level.postfixForm) [.word f, .mark .openParen, .mark .closeParen] (.call f [])
  | first {ts : List Token} {p : Phrase} (f : String)
      (argument : Derives (.level Level.assignment) ts p) :
      Derives .parameters (.word f :: .mark .openParen :: ts) (.call f [p])
  | next {ts us : List Token} {f : String} {ps : List Phrase} {p : Phrase}
      (earlier : Derives .parameters ts (.call f ps))
      (argument : Derives (.level Level.assignment) us p) :
      Derives .parameters (ts ++ .mark .comma :: us) (.call f (ps ++ [p]))
  | call {ts : List Token} {p : Phrase} (arguments : Derives .parameters ts p) :
      Derives (.level Level.postfixForm) (ts ++ [.mark .closeParen]) p
  | before {ts : List Token} {p : Phrase} {m : Mark} (sign : m.isSign = true)
      (operand : Derives (.level Level.unary) ts p) :
      Derives (.level Level.unary) (.mark m :: ts) (.before m p)
  | binary {ts us : List Token} {p q : Phrase} {m : Mark} {n : Nat}
      (op : m.binaryLevel? = some n) (left : Derives (.level n) ts p)
      (right : Derives (.level (n + 1)) us q) :
      Derives (.level n) (ts ++ .mark m :: us) (.binary m p q)
  | conditional {ts us vs : List Token} {p q r : Phrase}
      (condition : Derives (.level (Level.conditional + 1)) ts p)
      (accept : Derives (.level Level.sequence) us q)
      (reject : Derives (.level Level.assignment) vs r) :
      Derives (.level Level.conditional) (ts ++ .mark .question :: us ++ .mark .colon :: vs)
        (.conditional p q r)
  | assign {ts us : List Token} {p q : Phrase} {m : Mark} {op : Option Mark}
      (stores : m.assignment? = some op) (target : Derives (.level Level.unary) ts p)
      (value : Derives (.level Level.assignment) us q) :
      Derives (.level Level.assignment) (ts ++ .mark m :: us) (.assign op p q)
  | sequence {ts us : List Token} {p q : Phrase} (first : Derives (.level Level.sequence) ts p)
      (second : Derives (.level Level.assignment) us q) :
      Derives (.level Level.sequence) (ts ++ .mark .comma :: us) (.sequence p q)
  | loosen {ts : List Token} {p : Phrase} {n : Nat} (tighter : Derives (.level (n + 1)) ts p) :
      Derives (.level n) ts p

/-- A phrase of one level is a phrase of every looser one. -/
lemma Derives.loosenTo {m n : Nat} {ts : List Token} {p : Phrase} (le : m ≤ n)
    (tighter : Derives (.level n) ts p) : Derives (.level m) ts p := by
  induction le with
  | refl => exact tighter
  | step _ ih => exact ih tighter.loosen

/-- The text is an expression that reads as the phrase. -/
def Reads (text : String) (p : Phrase) : Prop :=
  ∃ tokens, Splits text.toList tokens ∧ Derives (.level Level.sequence) tokens p

end ShaderAlgebra.Grammar
