import ShaderAlgebra.Proofs.Render.Grammar

/-!
# Every text has one reading

A text that reads as an expression reads as only one. The tokens of a text are determined by the
longest match (`Splits.unique`). For the phrases, the grammar is set beside a parser that looks one
token ahead: it finds every derivable phrase (`parse_of_derives`), and it finds one phrase only.

The parser takes more than the grammar derives, for instance any phrase as the target of an
assignment. That does no harm, since it only has to tell derivable phrases apart. It is handed a
number that bounds how deep it may go, and every phrase is found once the number is large enough
(`Settles`).
-/

namespace ShaderAlgebra.Grammar

open List
open ShaderAlgebra.Grammar.Level (primary assignment postfixForm unary)

variable {rest ts : List Token} {n : Nat} {p : Phrase} {m : Mark} {op : Option Mark}
  {out : Phrase × List Token}

/-! ## Tokens -/

lemma token?_nil : token? [] = none := by decide

/-- No token begins with a blank. -/
lemma token?_of_whitespace {c : Char} {cs : List Char} (space : c.isWhitespace) :
    token? (c :: cs) = none := by
  have which : c = ' ' ∨ c = '\t' ∨ c = '\r' ∨ c = '\n' := by
    simpa [Char.isWhitespace, or_assoc] using space
  have mark : Mark.ofSpelling? (c :: cs) = none := by
    rcases which with rfl | rfl | rfl | rfl <;> simp [Mark.ofSpelling?, Mark.all, Mark.spelling]
  have numeral : numeral? (c :: cs) = none := by
    rcases which with rfl | rfl | rfl | rfl <;> simp [numeral?, Char.isDigit]
  have word : isWord (c :: cs) = false := by rcases which with rfl | rfl | rfl | rfl <;> rfl
  exact token?_eq_none word mark numeral

lemma token?_of_append_eq {c : Char} {cs lexeme left : List Char} (space : c.isWhitespace)
    (same : lexeme ++ left = c :: cs) : token? lexeme = none := by
  cases lexeme with
  | nil => exact token?_nil
  | cons d ds =>
    obtain ⟨rfl, -⟩ := List.cons.inj same
    exact token?_of_whitespace space

/-- Two longest tokens at the start of the same text are the same token. -/
lemma longest_unique {lexeme oth rest left : List Char} (same : lexeme ++ rest = oth ++ left)
    (spelled : (token? lexeme).isSome) (spelledOther : (token? oth).isSome)
    (longest : ∀ longer, (token? longer).isSome → longer <+: lexeme ++ rest →
      longer.length ≤ lexeme.length)
    (longestOther : ∀ longer, (token? longer).isSome → longer <+: oth ++ left →
      longer.length ≤ oth.length) :
    lexeme = oth ∧ rest = left := by
  have short := longest oth spelledOther (same ▸ prefix_append oth left)
  have long := longestOther lexeme spelled (same ▸ prefix_append lexeme rest)
  exact append_inj same (Nat.le_antisymm long short)

/-- A text splits into tokens in one way. -/
lemma Splits.unique {cs ds : List Char} {us : List Token} (fst : Splits cs ts)
    (snd : Splits ds us) (same : cs = ds) : ts = us := by
  induction fst generalizing ds us with
  | done =>
    cases snd with
    | done => rfl
    | blank => exact absurd same (by simp)
    | @token lexeme rest token tokens spelled =>
      obtain ⟨rfl, -⟩ := append_eq_nil_iff.mp same.symm
      simp [token?_nil] at spelled
  | @blank c rest tokens space after ih =>
    cases snd with
    | done => exact absurd same (by simp)
    | blank space' after' => exact ih after' (List.cons.inj same).2
    | token spelled => simp [token?_of_append_eq space same.symm] at spelled
  | @token lexeme rest token tokens spelled longest after ih =>
    cases snd with
    | done =>
      obtain ⟨rfl, -⟩ := append_eq_nil_iff.mp same
      simp [token?_nil] at spelled
    | blank space => simp [token?_of_append_eq space same] at spelled
    | token spelled' longest' after' =>
      obtain ⟨rfl, rfl⟩ := longest_unique same (by simp [spelled]) (by simp [spelled'])
        longest longest'
      obtain rfl : token = _ := Option.some.inj (spelled.symm.trans spelled')
      rw [ih after' rfl]

/-! ## A parser -/

/-- The level at which a mark takes the expression before it as an operand, counted from one; zero
if it takes none. An opening parenthesis would turn a name into a call, which is tighter than any
level. -/
def Mark.pull : Mark → Nat
  | .openParen => 17
  | .dot | .openBracket | .increment | .decrement => 16
  | .question => 3
  | .comma => 1
  | m => if m.assignment?.isSome then 2 else (m.binaryLevel?.map (· + 1)).getD 0

/-- The pull of the token that comes next. -/
def pull : List Token → Nat
  | .mark m :: _ => m.pull
  | _ => 0

/-- What a parser gives: a phrase and the tokens that follow it. -/
abbrev Parsed := Option (Phrase × List Token)

/-- What follows an expected mark. -/
def expect (m : Mark) : List Token → Option (List Token)
  | .mark other :: ts => if other = m then some ts else none
  | _ => none

mutual

/-- A phrase of the level: one of the next tighter level, extended as far as it goes. -/
def parse : Nat → Nat → List Token → Parsed
  | 0, _, _ => none
  | k + 1, n, ts =>
    if n < Level.primary then (parse k (n + 1) ts).bind fun (p, rest) => extend k n p rest
    else atom k ts

/-- A phrase that begins with neither an operand nor an operator between operands. -/
def atom : Nat → List Token → Parsed
  | _ + 1, .truth b :: ts => some (.truth b, ts)
  | _ + 1, .int n :: ts => some (.int n, ts)
  | _ + 1, .float x :: ts => some (.float x, ts)
  | k + 1, .word f :: ts =>
    match expect .openParen ts with
    | none => some (.name f, ts)
    | some ts =>
      match expect .closeParen ts with
      | some ts => some (.call f [], ts)
      | none => (parse k Level.assignment ts).bind fun (p, rest) => closeCall k f [p] rest
  | k + 1, .mark m :: ts =>
    if m = .openParen then
      (parse k Level.sequence ts).bind fun (p, rest) =>
        (expect .closeParen rest).map fun rest => (p, rest)
    else (parse k Level.unary ts).map fun (p, rest) => (.before m p, rest)
  | _, _ => none

/-- A call after some of its arguments. -/
def closeCall : Nat → String → List Phrase → List Token → Parsed
  | _ + 1, f, ps, .mark .closeParen :: ts => some (.call f ps, ts)
  | k + 1, f, ps, .mark .comma :: ts =>
    (parse k Level.assignment ts).bind fun (p, rest) => closeCall k f (ps ++ [p]) rest
  | _, _, _, _ => none

/-- The phrase extended by what follows, as long as that belongs to the level. -/
def extend : Nat → Nat → Phrase → List Token → Parsed
  | 0, _, _, _ => none
  | k + 1, n, p, .mark m :: ts => if m.pull = n + 1 then grow k n p m ts else some (p, .mark m :: ts)
  | _ + 1, _, p, ts => some (p, ts)

/-- The phrase extended by what a mark begins. -/
def grow : Nat → Nat → Phrase → Mark → List Token → Parsed
  | 0, _, _, _, _ => none
  | k + 1, n, p, .dot, .word f :: ts => extend k n (.field p f) ts
  | k + 1, n, p, .openBracket, ts =>
    (parse k Level.sequence ts).bind fun (q, rest) =>
      (expect .closeBracket rest).bind fun rest => extend k n (.index p q) rest
  | k + 1, _, p, .question, ts =>
    (parse k Level.sequence ts).bind fun (q, rest) =>
      (expect .colon rest).bind fun rest =>
        (parse k Level.assignment rest).map fun (r, rest) => (.conditional p q r, rest)
  | k + 1, n, p, .comma, ts =>
    (parse k Level.assignment ts).bind fun (q, rest) => extend k n (.sequence p q) rest
  | k + 1, n, p, m, ts =>
    if m.isStep then extend k n (.after p m) ts
    else
      match m.assignment? with
      | some op => (parse k n ts).map fun (q, rest) => (.assign op p q, rest)
      | none => (parse k (n + 1) ts).bind fun (q, rest) => extend k n (.binary m p q) rest

end

/-- The computation gives this result as soon as it may go deep enough. -/
def Settles {α : Type} (f : Nat → Option α) (a : α) : Prop := ∃ k, ∀ j, k ≤ j → f j = some a

namespace Settles

variable {α β : Type} {f : Nat → Option α} {a b : α}

lemma unique (fst : Settles f a) (snd : Settles f b) : a = b := by
  obtain ⟨k, fst⟩ := fst
  obtain ⟨l, snd⟩ := snd
  exact Option.some.inj ((fst (k + l) (by omega)).symm.trans (snd (k + l) (by omega)))

/-- A step of the computation costs one. -/
lemma step {g : Nat → Option α} (settles : Settles f a) (next : ∀ k, g (k + 1) = f k) :
    Settles g a := by
  obtain ⟨k, settles⟩ := settles
  refine ⟨k + 1, fun j le => ?_⟩
  obtain ⟨i, rfl⟩ : ∃ i, j = i + 1 := ⟨j - 1, by omega⟩
  rw [next]
  exact settles i (by omega)

/-- A step that needs no further computation. -/
lemma now (next : ∀ k, f (k + 1) = some a) : Settles f a :=
  step (f := fun _ => some a) ⟨0, fun _ _ => rfl⟩ next

lemma always (given : ∀ k, f k = some a) : Settles f a := ⟨0, fun k _ => given k⟩

lemma bind {g : α → Nat → Option β} {b : β} (fst : Settles f a) (snd : Settles (g a) b) :
    Settles (fun k => (f k).bind fun x => g x k) b := by
  obtain ⟨k, fst⟩ := fst
  obtain ⟨l, snd⟩ := snd
  refine ⟨k + l, fun j le => ?_⟩
  simp only [fst j (by omega), Option.bind_some]
  exact snd j (by omega)

lemma map (g : α → β) (settles : Settles f a) : Settles (fun k => (f k).map g) (g a) := by
  obtain ⟨k, settles⟩ := settles
  exact ⟨k, fun j le => by simp [settles j le]⟩

end Settles

/-! ## The parser finds every phrase -/

/-- The most that the next token may pull for a phrase of the level to end before it. At the levels
that group to the left the phrase may go on at its own level. -/
def Level.bound : Nat → Nat
  | 1 | 2 => 1
  | 14 => 14
  | 16 => 16
  | n => n + 1

lemma Level.bound_le (n : Nat) : Level.bound n ≤ Level.bound (n + 1) := by
  rcases Nat.lt_or_ge n 17 with low | high
  · revert n
    decide
  · obtain ⟨m, rfl⟩ := Nat.exists_eq_add_of_le' high
    exact Nat.le_succ _

lemma Level.bound_le_succ (n : Nat) : Level.bound n ≤ n + 1 := by
  unfold bound
  split <;> omega

/-- A phrase is not extended by a token that does not pull at its level. -/
lemma extend_stays (ends : pull rest ≠ n + 1) : Settles (fun k => extend k n p rest) (p, rest) := by
  refine .now fun k => ?_
  match rest with
  | [] => rfl
  | .mark m :: rest =>
    have oth : ¬ m.pull = n + 1 := ends
    simp only [extend, if_neg oth]
  | .word _ :: rest | .truth _ :: rest | .int _ :: rest | .float _ :: rest => rfl

/-- A phrase of one level, extended at the next looser one. -/
lemma parse_loosen (looser : n < primary)
    (tighter : Settles (fun k => parse k (n + 1) ts) (p, rest))
    (ext : Settles (fun k => extend k n p rest) out) : Settles (fun k => parse k n ts) out :=
  (tighter.bind (g := fun (q, left) k => extend k n q left) ext).step fun k => by
    simp only [parse, if_pos looser]

/-- A phrase of one level is found at every looser one, up to the level that the next token pulls
at. -/
lemma parse_lower {m : Nat} (le : m ≤ n) (top : n ≤ primary) (ends : pull rest ≤ m)
    (tighter : Settles (fun k => parse k n ts) (p, rest)) :
    Settles (fun k => parse k m ts) (p, rest) := by
  induction le with
  | refl => exact tighter
  | @step l le ih =>
    have le : m ≤ l := le
    have looser : l < primary := top
    exact ih (Nat.le_of_lt looser) (parse_loosen looser tighter (extend_stays (by omega)))

/-- What a mark that binds two operands pulls. -/
lemma pull_of_binaryLevel (op : m.binaryLevel? = some n) :
    m.pull = n + 1 ∧ m.isStep = false ∧ m.assignment? = none ∧ 3 ≤ n ∧ n ≤ 13 := by
  cases m <;> simp only [Mark.binaryLevel?, Option.some.injEq, reduceCtorEq] at op <;> subst op <;>
    decide

/-- What a mark that assigns pulls. -/
lemma pull_of_assignment (stores : m.assignment? = some op) : m.pull = 2 ∧ m.isStep = false := by
  cases m <;> simp_all [Mark.assignment?, Mark.pull, Mark.isStep]

/-- A mark that binds two operands extends the first by the second. -/
lemma grow_binary (op : m.binaryLevel? = some n) (k : Nat) (p : Phrase) (ts : List Token) :
    grow (k + 1) n p m ts
      = (parse k (n + 1) ts).bind fun (q, rest) => extend k n (.binary m p q) rest := by
  cases m <;> first | rfl | (simp [Mark.binaryLevel?] at op; done)

/-- A mark that assigns extends the target by the value. -/
lemma grow_assign (stores : m.assignment? = some op) (k : Nat) (n : Nat) (p : Phrase)
    (ts : List Token) :
    grow (k + 1) n p m ts = (parse k n ts).map fun (q, rest) => (.assign op p q, rest) := by
  cases m <;> simp_all [Mark.assignment?, grow, Mark.isStep]

lemma grow_step (step : m.isStep) (k : Nat) (n : Nat) (p : Phrase) (ts : List Token) :
    grow (k + 1) n p m ts = extend k n (.after p m) ts := by
  cases m <;> simp_all [Mark.isStep, grow]

lemma atom_sign (sign : m.isSign) (k : Nat) (ts : List Token) : atom (k + 1) (.mark m :: ts)
      = (parse k unary ts).map fun (p, rest) => (.before m p, rest) := by
  cases m <;> first | rfl | exact absurd sign (by decide)

/-- The parser finds the phrase at the start of the tokens and goes on from there, whatever follows
that does not pull too hard. At a level this says how the phrase is extended, so that a phrase which
grows to the left is found operand by operand. -/
def Found : Category → List Token → Phrase → Prop
  | .level n, ts, p => n ≤ Level.primary ∧ ∀ rest out, pull rest ≤ Level.bound n →
      Settles (fun k => extend k n p rest) out → Settles (fun k => parse k n (ts ++ rest)) out
  | .parameters, ts, p => ∃ f ps, p = .call f ps ∧ ∀ rest out, pull rest ≤ Level.bound 0 →
      Settles (fun k => closeCall k f ps rest) out → Settles (fun k => atom k (ts ++ rest)) out

namespace Found

variable {n : Nat} {ts us vs : List Token} {p q r : Phrase} {m : Mark}

/-- A phrase that nothing extends is found as it is. -/
lemma exactly (found : Found (.level n) ts p) (rest : List Token)
    (within : pull rest ≤ Level.bound n) (ends : pull rest ≤ n) :
    Settles (fun k => parse k n (ts ++ rest)) (p, rest) :=
  found.2 rest (p, rest) within (extend_stays (by omega))

lemma ofAtom (found : ∀ rest, pull rest ≤ primary →
    Settles (fun k => atom k (ts ++ rest)) (p, rest)) : Found (.level primary) ts p := by
  refine ⟨Nat.le_refl _, fun rest out within ext => ?_⟩
  have within : pull rest ≤ primary := within
  obtain rfl := ext.unique (extend_stays (by omega))
  exact (found rest within).step fun k => by simp [parse]

lemma loosen (found : Found (.level (n + 1)) ts p) : Found (.level n) ts p := by
  refine ⟨Nat.le_of_lt found.1, fun rest out within ext => ?_⟩
  have tight : pull rest ≤ n + 1 := Nat.le_trans within (Level.bound_le_succ n)
  exact parse_loosen found.1 (found.exactly rest (Nat.le_trans within (Level.bound_le n)) tight) ext

/-- A phrase that the next mark extends at its own level. -/
lemma grows (base : Found (.level n) ts p) (pulls : m.pull = n + 1)
    (leftward : Level.bound n = n + 1) (grown : Settles (fun k => grow k n p m us) out) :
    Settles (fun k => parse k n (ts ++ .mark m :: us)) out := by
  have within : pull (.mark m :: us) ≤ Level.bound n := by
    rw [leftward, ← pulls]
    exact Nat.le_refl _
  exact base.2 (.mark m :: us) out within (grown.step fun k => by simp only [extend, if_pos pulls])

/-- A name, unless a parenthesis follows that would make it a call. -/
lemma name (x : String) : Found (.level primary) [.word x] (.name x) := by
  refine ofAtom fun rest within => .now fun k => ?_
  have noCall : expect .openParen rest = none := by
    match rest with
    | .mark m :: more =>
      have oth : m ≠ .openParen := by
        rintro rfl
        exact absurd within (by simp [pull, Mark.pull, primary])
      simp [expect, oth]
    | .word _ :: _ | .truth _ :: _ | .int _ :: _ | .float _ :: _ | [] => rfl
  simp [atom, noCall]

lemma group (inner : Found (.level Level.sequence) ts p) :
    Found (.level primary) (.mark .openParen :: ts ++ [.mark .closeParen]) p := by
  refine ofAtom fun rest _ => ?_
  have found := inner.exactly (.mark .closeParen :: rest) (Nat.zero_le _) (Nat.zero_le _)
  have closed := found.bind (g := fun (p, rest) _ =>
    (expect .closeParen rest).map fun rest => (p, rest)) (.always fun _ => rfl)
  exact closed.step fun k => by simp [atom]

lemma field (base : Found (.level postfixForm) ts p) (x : String) :
    Found (.level postfixForm) (ts ++ [.mark .dot, .word x]) (.field p x) := by
  refine ⟨base.1, fun rest out _ ext => ?_⟩
  rw [append_assoc]
  exact base.grows rfl rfl (ext.step fun _ => rfl)

lemma index (base : Found (.level postfixForm) ts p) (pos : Found (.level Level.sequence) us q) :
    Found (.level postfixForm) (ts ++ .mark .openBracket :: us ++ [.mark .closeBracket])
      (.index p q) := by
  refine ⟨base.1, fun rest out _ ext => ?_⟩
  have inner := pos.exactly (.mark .closeBracket :: rest) (Nat.zero_le _) (Nat.zero_le _)
  have closed := inner.bind (g := fun (q, rest) k => (expect .closeBracket rest).bind fun rest =>
    extend k postfixForm (.index p q) rest) ext
  simpa using base.grows rfl rfl (closed.step (g := fun k =>
    grow k postfixForm p .openBracket (us ++ .mark .closeBracket :: rest)) fun _ => rfl)

lemma after (opd : Found (.level postfixForm) ts p) (step : m.isStep) :
    Found (.level postfixForm) (ts ++ [.mark m]) (.after p m) := by
  have pulls : m.pull = postfixForm + 1 := by cases m <;> first | rfl | exact absurd step nofun
  refine ⟨opd.1, fun rest out _ ext => ?_⟩
  rw [append_assoc]
  exact opd.grows pulls rfl (ext.step fun k => grow_step step k _ _ _)

lemma empty (f : String) :
    Found (.level postfixForm) [.word f, .mark .openParen, .mark .closeParen] (.call f []) :=
  (ofAtom fun _ _ => .now fun _ => rfl : Found (.level primary) _ _).loosen

lemma first (f : String) (arg : Found (.level assignment) ts p)
    (starts : ∀ rest, expect .closeParen (ts ++ rest) = none) :
    Found .parameters (.word f :: .mark .openParen :: ts) (.call f [p]) := by
  refine ⟨f, [p], rfl, fun rest out within closed => ?_⟩
  have found := arg.exactly rest within within
  refine (found.bind (g := fun (p, rest) k => closeCall k f [p] rest) closed).step fun k => ?_
  have opn : expect .openParen (.mark .openParen :: (ts ++ rest)) = some (ts ++ rest) := rfl
  simp [atom, opn, starts rest]

lemma next {f : String} {ps : List Phrase} (earlier : Found .parameters ts (.call f ps))
    (arg : Found (.level assignment) us p) :
    Found .parameters (ts ++ .mark .comma :: us) (.call f (ps ++ [p])) := by
  obtain ⟨_, _, same, continued⟩ := earlier
  cases same
  refine ⟨f, ps ++ [p], rfl, fun rest out within closed => ?_⟩
  have found := arg.exactly rest within within
  have more := found.bind (g := fun (p, rest) k => closeCall k f (ps ++ [p]) rest) closed
  rw [append_assoc]
  exact continued (.mark .comma :: (us ++ rest)) out (Nat.le_refl _) (more.step fun _ => rfl)

lemma call (args : Found .parameters ts p) :
    Found (.level postfixForm) (ts ++ [.mark .closeParen]) p := by
  obtain ⟨f, ps, rfl, continued⟩ := args
  have found : Found (.level primary) (ts ++ [.mark .closeParen]) (.call f ps) := by
    refine ofAtom fun rest _ => ?_
    rw [append_assoc]
    exact continued (.mark .closeParen :: rest) _ (Nat.zero_le _) (.now fun _ => rfl)
  exact found.loosen

lemma before (sign : m.isSign) (opd : Found (.level unary) ts p) :
    Found (.level unary) (.mark m :: ts) (.before m p) := by
  refine ⟨opd.1, fun rest out within ext => ?_⟩
  have tight : pull rest ≤ unary := within
  have found := opd.exactly rest within within
  have signed : Settles (fun k => atom k (.mark m :: ts ++ rest)) (.before m p, rest) :=
    (found.map fun (p, rest) => (Phrase.before m p, rest)).step fun k => atom_sign sign k _
  have whole : Settles (fun k => parse k primary (.mark m :: ts ++ rest))
      (.before m p, rest) := signed.step fun k => by simp [parse]
  have bare := parse_lower (show unary + 1 ≤ primary by decide) (Nat.le_refl _) (by omega) whole
  exact parse_loosen (by decide) bare ext

lemma binary (op : m.binaryLevel? = some n) (left : Found (.level n) ts p)
    (right : Found (.level (n + 1)) us q) :
    Found (.level n) (ts ++ .mark m :: us) (.binary m p q) := by
  obtain ⟨pulls, low, high⟩ := pull_of_binaryLevel op
  have leftward : Level.bound n = n + 1 := by
    simp only [Level.bound]
    split <;> omega
  refine ⟨left.1, fun rest out within ext => ?_⟩
  have tight : pull rest ≤ n + 1 := Nat.le_trans within (Level.bound_le_succ n)
  have snd := right.exactly rest (Nat.le_trans within (Level.bound_le n)) tight
  have both := snd.bind (g := fun (q, rest) k => extend k n (.binary m p q) rest) ext
  rw [append_assoc]
  exact left.grows pulls leftward (both.step fun k => grow_binary op k _ _)

lemma conditional (cond : Found (.level (Level.conditional + 1)) ts p)
    (accept : Found (.level Level.sequence) us q) (rej : Found (.level assignment) vs r) :
    Found (.level Level.conditional) (ts ++ .mark .question :: us ++ .mark .colon :: vs)
      (.conditional p q r) := by
  refine ⟨Nat.le_of_lt cond.1, fun rest out within ext => ?_⟩
  have tight : pull rest ≤ Level.conditional := Nat.le_trans within (by decide)
  obtain rfl := ext.unique (extend_stays (by omega))
  have tested := cond.exactly (.mark .question :: (us ++ .mark .colon :: (vs ++ rest)))
    (show 3 ≤ 4 by decide) (Nat.le_refl 3)
  have acc := accept.exactly (.mark .colon :: (vs ++ rest)) (Nat.zero_le _) (Nat.zero_le _)
  have rejd := rej.exactly rest within within
  have chosen := acc.bind (g := fun (q, rest) k => (expect .colon rest).bind fun rest =>
    (parse k assignment rest).map fun (r, rest) => (Phrase.conditional p q r, rest))
    (rejd.map fun (r, rest) => (Phrase.conditional p q r, rest))
  have grown : Settles (fun k => extend k Level.conditional p
      (.mark .question :: (us ++ .mark .colon :: (vs ++ rest)))) (.conditional p q r, rest) :=
    (chosen.step (g := fun k => grow k Level.conditional p .question
      (us ++ .mark .colon :: (vs ++ rest))) fun _ => rfl).step fun _ => rfl
  simpa using parse_loosen (by decide) tested grown

lemma assign (stores : m.assignment? = some op) (tgt : Found (.level unary) ts p)
    (val : Found (.level assignment) us q) :
    Found (.level assignment) (ts ++ .mark m :: us) (.assign op p q) := by
  refine ⟨val.1, fun rest out within ext => ?_⟩
  have tight : pull rest ≤ assignment := within
  obtain rfl := ext.unique (extend_stays (by omega))
  obtain ⟨pulls, -⟩ := pull_of_assignment stores
  have next : pull (.mark m :: (us ++ rest)) = 2 := pulls
  have stored := val.exactly rest within within
  have asgd := tgt.exactly (.mark m :: (us ++ rest)) (by rw [next]; decide) (by rw [next]; decide)
  have grown : Settles (fun k => extend k assignment p (.mark m :: (us ++ rest)))
      (.assign op p q, rest) :=
    ((stored.map fun (q, rest) => (Phrase.assign op p q, rest)).step
      (g := fun k => grow k assignment p m (us ++ rest))
      (fun k => grow_assign stores k assignment p (us ++ rest))).step
      fun k => by simp [extend, pulls, assignment]
  rw [append_assoc]
  exact parse_loosen (by decide)
    (parse_lower (by decide) (by decide) (by rw [next]; decide) asgd) grown

lemma sequence (fst : Found (.level Level.sequence) ts p) (snd : Found (.level assignment) us q) :
    Found (.level Level.sequence) (ts ++ .mark .comma :: us) (.sequence p q) := by
  refine ⟨fst.1, fun rest out within ext => ?_⟩
  have found := snd.exactly rest within within
  have both := found.bind (g := fun (q, rest) k => extend k Level.sequence (.sequence p q) rest)
    ext
  rw [append_assoc]
  exact fst.grows rfl rfl (both.step fun _ => rfl)

end Found

/-- No phrase begins with a closing parenthesis. -/
lemma Derives.starts {c : Category} (der : Derives c ts p) (rest : List Token) :
    expect .closeParen (ts ++ rest) = none := by
  induction der generalizing rest with
  | truth | int | float | name | group | empty | first => rfl
  | @before _ _ m sign =>
    have oth : m ≠ .closeParen := by
      rintro rfl
      exact absurd sign (by decide)
    simp [expect, oth]
  | field _ _ ih | after _ _ ih | call _ ih | loosen _ ih => simpa [append_assoc] using ih _
  | index _ _ ih _ | next _ _ ih _ | binary _ _ _ ih _ | assign _ _ _ ih _ | sequence _ _ ih _
  | conditional _ _ _ ih _ _ => simpa [append_assoc] using ih _

/-- The parser finds every phrase that the grammar derives. -/
lemma found_of_derives {c : Category} (der : Derives c ts p) : Found c ts p := by
  induction der with
  | truth | int | float => exact .ofAtom fun _ _ => .now fun _ => rfl
  | name x => exact .name x
  | group _ inner => exact inner.group
  | field _ x base => exact base.field x
  | index _ _ base pos => exact base.index pos
  | after _ step opd => exact opd.after step
  | empty f => exact .empty f
  | first f der arg => exact .first f arg der.starts
  | next _ _ earlier arg => exact earlier.next arg
  | call _ args => exact args.call
  | before sign _ opd => exact .before sign opd
  | binary op _ _ left right => exact .binary op left right
  | conditional _ _ _ cond acc rej => exact cond.conditional acc rej
  | assign stores _ _ tgt val => exact .assign stores tgt val
  | sequence _ _ fst snd => exact fst.sequence snd
  | loosen _ tighter => exact tighter.loosen

/-- The grammar is unambiguous: tokens derive at most one expression. -/
lemma Derives.unique {q : Phrase} (fst : Derives (.level Level.sequence) ts p)
    (snd : Derives (.level Level.sequence) ts q) : p = q := by
  have found := (found_of_derives fst).exactly [] (Nat.zero_le _) (Nat.zero_le _)
  have oth := (found_of_derives snd).exactly [] (Nat.zero_le _) (Nat.zero_le _)
  exact (Prod.mk.inj (found.unique oth)).1

/-- A text reads as at most one expression. -/
lemma Reads.unique {text : String} {q : Phrase} (fst : Reads text p) (snd : Reads text q) :
    p = q := by
  obtain ⟨ts, split, der⟩ := fst
  obtain ⟨us, split', der'⟩ := snd
  obtain rfl := split.unique split' rfl
  exact der.unique der'

end ShaderAlgebra.Grammar
