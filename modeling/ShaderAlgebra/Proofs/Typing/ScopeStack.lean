import Mathlib.Data.Finmap
import ShaderAlgebra.Proofs.Typing.Lexical

/-!
# The symbol table as a stack of scopes

Seen from outside the table is a stack: one finite map for each open scope, the innermost first
(`ScopeStack`). Inside, it is a list of frames that only grows, each with the number of the frame
around it, and a cursor.

The two are tied together by the numbers of the open frames. They depend on the steps that were
taken and on nothing else (`OpenFrames`), they are the frames that a walk from the cursor meets
(`ChainsTo`), and each holds what one level of the stack declares (`Implements`). Every step keeps
that. A chain once there stays, since no step changes the parent of a frame, so a frame that is
closed long ago is still looked up through the frames that were open around it.

Frames are numbered without a bound.
-/

namespace ShaderAlgebra

open List

/-- A step that opens or closes a scope, or declares a name in the innermost one. -/
inductive ScopeStep where
  | push
  | pop
  | declare (name : String) (ty : Ty)

/-! ## Stacks -/

/-- What one scope declares. -/
abbrev ScopeLevel := Finmap fun _ : String => Ty

/-- The open scopes. The innermost stands apart, so there is always one. -/
structure ScopeStack where
  innermost : ScopeLevel
  outer : List ScopeLevel

namespace ScopeStack

def empty : ScopeStack := ⟨∅, []⟩

def levels (stack : ScopeStack) : List ScopeLevel := stack.innermost :: stack.outer

def push (stack : ScopeStack) : ScopeStack := ⟨∅, stack.levels⟩

/-- Closes the innermost scope, unless it is the last one. -/
def pop (stack : ScopeStack) : ScopeStack :=
  match stack.outer with
  | [] => stack
  | level :: rest => ⟨level, rest⟩

/-- Declares a name in the innermost scope, and gives what the name was there. -/
def declare (stack : ScopeStack) (name : String) (ty : Ty) : Option Ty × ScopeStack :=
  (stack.innermost.lookup name, { stack with innermost := stack.innermost.insert name ty })

/-- What the innermost scope that declares the name says. -/
def lookup (stack : ScopeStack) (name : String) : Option Ty :=
  stack.levels.findSome? fun level => level.lookup name

def step (stack : ScopeStack) : ScopeStep → ScopeStack
  | .push => stack.push
  | .pop => stack.pop
  | .declare name ty => (stack.declare name ty).2

def run (stack : ScopeStack) (steps : List ScopeStep) : ScopeStack := steps.foldl step stack

end ScopeStack

/-- Steps that close the scopes that they open, and no others. -/
inductive ScopeStep.Nested : List ScopeStep → Prop
  | nil : Nested []
  | declare (name : String) (ty : Ty) {rest : List ScopeStep} :
    Nested rest → Nested (.declare name ty :: rest)
  | scope {inner rest : List ScopeStep} :
    Nested inner → Nested rest → Nested (.push :: (inner ++ .pop :: rest))

namespace ScopeStack

lemma run_append (stack : ScopeStack) (fst snd : List ScopeStep) :
    stack.run (fst ++ snd) = (stack.run fst).run snd :=
  foldl_append

/-- A scope is gone when it is closed, if the scopes around it were left alone meanwhile. -/
lemma run_push_pop {stack : ScopeStack} {ins : List ScopeStep}
    (kept : (stack.push.run ins).outer = stack.levels) (after : List ScopeStep) :
    stack.run (.push :: (ins ++ .pop :: after)) = stack.run after := by
  have closed : (stack.push.run ins).pop = stack := by simp only [pop, kept, levels]
  change stack.push.run (ins ++ .pop :: after) = _
  rw [run_append]
  change (stack.push.run ins).pop.run after = _
  rw [closed]

/-- Nested steps leave the scopes around the innermost one alone. -/
lemma outer_run {steps : List ScopeStep} (nested : ScopeStep.Nested steps) (stack : ScopeStack) :
    (stack.run steps).outer = stack.outer := by
  induction nested generalizing stack with
  | nil => rfl
  | declare name ty _ ih => exact ih _
  | scope _ _ ihInner ihRest =>
    rw [run_push_pop (ihInner stack.push)]
    exact ihRest stack

end ScopeStack

/-! ## Numbers of open frames -/

/-- The numbers of the open frames, the innermost first, and the number of the next frame. Frames
are numbered in the order in which they are opened. -/
structure OpenFrames where
  numbers : List Nat
  next : Nat

namespace OpenFrames

def start : OpenFrames := ⟨[0], 1⟩

def step (opened : OpenFrames) : ScopeStep → OpenFrames
  | .push => ⟨opened.next :: opened.numbers, opened.next + 1⟩
  | .pop =>
    match opened.numbers with
    | _ :: outer :: rest => { opened with numbers := outer :: rest }
    | _ => opened
  | .declare .. => opened

def run (steps : List ScopeStep) : OpenFrames := steps.foldl step start

end OpenFrames

namespace SymbolTable

variable {table later : SymbolTable} {numbers : List Nat} {number : Nat}

def step (table : SymbolTable) : ScopeStep → SymbolTable
  | .push => table.pushScope
  | .pop => table.popScope
  | .declare name ty => (table.declare name ty).2

def run (table : SymbolTable) (steps : List ScopeStep) : SymbolTable := steps.foldl step table

lemma run_append (table : SymbolTable) (fst snd : List ScopeStep) :
    table.run (fst ++ snd) = (table.run fst).run snd :=
  foldl_append

/-! ## Chains of frames -/

/-- What a frame says of a name. -/
def declaredIn (table : SymbolTable) (number : Nat) (name : String) : Option Ty :=
  table.frames[number]?.bind fun frame => frame.symbols.get? name

/-- The frame with the given number, if there is one, and the frames around it have these numbers.
-/
inductive ChainsTo (table : SymbolTable) : Option Nat → List Nat → Prop
  | outside : ChainsTo table none []
  | frame {number : Nat} {frame : Frame} {outer : List Nat} :
    table.frames[number]? = some frame → ChainsTo table frame.parent outer →
      ChainsTo table (some number) (number :: outer)

/-- A chain never leads past the frame that it starts from. -/
lemma ChainsTo.lt (wf : table.WellFormed) {start : Option Nat}
    (chain : table.ChainsTo start numbers) {bound : Nat}
    (below : ∀ fst, start = some fst → fst < bound) : ∀ number ∈ numbers, number < bound := by
  induction chain with
  | outside => exact fun number mem => absurd mem not_mem_nil
  | @frame fst frame out found _ ih =>
    have first_lt : fst < bound := below fst rfl
    intro number mem
    rcases mem_cons.mp mem with rfl | inOuter
    · exact first_lt
    · refine ih (fun parent child => ?_) number inOuter
      exact Nat.lt_trans (wf.parents fst frame parent found child) first_lt

/-- A chain is still there in a table whose frames have kept their parents. -/
lemma ChainsTo.mono (kept : ∀ (i : Nat) (frame : Frame), table.frames[i]? = some frame →
      ∃ frame' : Frame, later.frames[i]? = some frame' ∧ frame'.parent = frame.parent)
    {start : Option Nat} (chain : table.ChainsTo start numbers) : later.ChainsTo start numbers := by
  induction chain with
  | outside => exact .outside
  | frame found _ ih =>
    obtain ⟨frame', found', same⟩ := kept _ _ found
    exact .frame found' (same ▸ ih)

/-- A walk looks into the frames of the chain one after another. -/
lemma ChainsTo.walk (wf : table.WellFormed) (name : String)
    (chain : table.ChainsTo (some number) numbers) {steps : Nat} (enough : number < steps) :
    table.walk name steps number = numbers.findSome? fun i => table.declaredIn i name := by
  generalize isStart : some number = start at chain
  induction chain generalizing number steps with
  | outside => cases isStart
  | @frame fst frame out found rest ih =>
    obtain rfl : number = fst := by simpa using isStart
    obtain ⟨more, rfl⟩ : ∃ more, steps = more + 1 := ⟨steps - 1, by omega⟩
    have own : table.declaredIn number name = frame.symbols.get? name := by
      rw [declaredIn, found]
      rfl
    simp only [SymbolTable.walk, found, findSome?_cons, own]
    cases decl : frame.symbols.get? name with
    | some ty => rfl
    | none =>
      cases child : frame.parent with
      | none =>
        rw [child] at rest
        cases rest
        rfl
      | some parent =>
        have earlier := wf.parents number frame parent found child
        exact ih (by omega) child.symm

/-! ## What a step does to the frames -/

/-- Every frame of a table is there after a step, with the parent that it had. -/
lemma step_keeps_parents (table : SymbolTable) (step : ScopeStep) (i : Nat) (frame : Frame)
    (found : table.frames[i]? = some frame) :
    ∃ frame', (table.step step).frames[i]? = some frame' ∧ frame'.parent = frame.parent := by
  cases step with
  | push =>
    have ins : i < table.frames.size := (Array.getElem?_eq_some_iff.mp found).1
    refine ⟨frame, ?_, rfl⟩
    simpa [SymbolTable.step, pushScope, Array.getElem?_push, Nat.ne_of_lt ins] using found
  | pop =>
    refine ⟨frame, ?_, rfl⟩
    simp only [SymbolTable.step, popScope]
    split <;> exact found
  | declare name ty =>
    simp only [SymbolTable.step, getElem?_declare, found]
    split
    · exact ⟨_, rfl, rfl⟩
    · exact ⟨frame, rfl, rfl⟩

lemma run_keeps_parents (table : SymbolTable) (steps : List ScopeStep) (i : Nat) (frame : Frame)
    (found : table.frames[i]? = some frame) :
    ∃ frame', (table.run steps).frames[i]? = some frame' ∧ frame'.parent = frame.parent := by
  induction steps generalizing table frame with
  | nil => exact ⟨frame, found, rfl⟩
  | cons step steps ih =>
    obtain ⟨mid, foundMiddle, same⟩ := step_keeps_parents table step i frame found
    obtain ⟨last, foundLast, same'⟩ := ih (table.step step) mid foundMiddle
    exact ⟨last, foundLast, same'.trans same⟩

lemma declaredIn_pushScope (ins : number < table.frames.size) (name : String) :
    table.pushScope.declaredIn number name = table.declaredIn number name := by
  simp [declaredIn, pushScope, Array.getElem?_push, Nat.ne_of_lt ins]

lemma declaredIn_pushScope_new (table : SymbolTable) (name : String) :
    table.pushScope.declaredIn table.frames.size name = none := by
  simp [declaredIn, pushScope, Bindings.get?, Bindings.empty, Bindings.lookupEntry]

lemma declaredIn_declare (table : SymbolTable) (name : String) (ty : Ty)
    (oth : number ≠ table.current) (asked : String) :
    (table.declare name ty).2.declaredIn number asked = table.declaredIn number asked := by
  rw [declaredIn, getElem?_declare, if_neg oth, declaredIn]

lemma declaredIn_declare_current (wf : table.WellFormed) (name : String) (ty : Ty)
    (asked : String) :
    (table.declare name ty).2.declaredIn table.current asked
      = if asked = name then some ty else table.declaredIn table.current asked := by
  have found := Array.getElem?_eq_getElem wf.current
  rw [declaredIn, getElem?_declare, if_pos rfl, declaredIn, found]
  exact Bindings.get?_set _ name asked ty

/-! ## The invariant -/

/-- The frames with these numbers declare what these levels declare. -/
def Holds (table : SymbolTable) (numbers : List Nat) (levels : List ScopeLevel) : Prop :=
  Forall₂ (fun number (level : ScopeLevel) =>
    ∀ name, table.declaredIn number name = level.lookup name) numbers levels

/-- Steps that leave some frames alone leave their levels alone. -/
lemma Holds.congr {levels : List ScopeLevel} (alike : ∀ number ∈ numbers, ∀ name,
      later.declaredIn number name = table.declaredIn number name)
    (holds : table.Holds numbers levels) : later.Holds numbers levels := by
  have both := (forall₂_and_left numbers levels).mpr ⟨alike, holds⟩
  exact both.imp fun number level ⟨alike, decl⟩ name => (alike name).trans (decl name)

/-- The table is the stack: the open frames are those that a walk from the cursor meets, and each of
them declares what one level of the stack declares. -/
structure Implements (table : SymbolTable) (opened : OpenFrames) (stack : ScopeStack) : Prop where
  wellFormed : table.WellFormed
  size : table.frames.size = opened.next
  chain : table.ChainsTo (some table.current) opened.numbers
  levels : table.Holds opened.numbers stack.levels

lemma implements_empty : empty.Implements .start .empty where
  wellFormed := wellFormed_empty
  size := rfl
  chain := .frame rfl .outside
  levels := .cons (fun name => Eq.symm (Finmap.lookup_empty name)) .nil

namespace Implements

variable {table : SymbolTable} {opened : OpenFrames} {stack : ScopeStack}
  (same : table.Implements opened stack)
include same

lemma lookup (name : String) : table.lookup name = stack.lookup name := by
  rw [SymbolTable.lookup, lookupFrom,
    same.chain.walk same.wellFormed name same.wellFormed.current, ScopeStack.lookup]
  have levels := same.levels
  generalize opened.numbers = numbers at levels
  generalize stack.levels = scopes at levels
  induction levels with
  | nil => rfl
  | cons decl _ ih => simp only [findSome?_cons, decl name, ih]

/-- The open frames are the current one and those around it, level by level. -/
lemma exists_outer : ∃ out, opened.numbers = table.current :: out
    ∧ (∀ name, table.declaredIn table.current name = stack.innermost.lookup name)
    ∧ table.Holds out stack.outer
    ∧ ∃ frame, table.frames[table.current]? = some frame ∧ table.ChainsTo frame.parent out := by
  obtain ⟨wf, size, chain, levels⟩ := same
  generalize numbers : opened.numbers = list at chain levels
  cases chain with
  | frame found rest =>
    cases levels with
    | cons decl around => exact ⟨_, rfl, decl, around, _, found, rest⟩

lemma push : table.pushScope.Implements (opened.step .push) stack.push := by
  have chain := same.chain.mono (step_keeps_parents table .push)
  have last : table.pushScope.frames[opened.next]? = some ⟨some table.current, .empty⟩ := by
    simp [pushScope, ← same.size]
  have current : table.pushScope.current = opened.next := same.size
  refine ⟨wellFormed_pushScope same.wellFormed, ?_, ?_, .cons (fun name => ?_) ?_⟩
  · simp [pushScope, OpenFrames.step, same.size]
  · rw [current]
    exact .frame last chain
  · rw [← same.size, declaredIn_pushScope_new]
    exact Eq.symm (Finmap.lookup_empty name)
  · refine same.levels.congr fun number mem name => ?_
    refine declaredIn_pushScope (same.chain.lt same.wellFormed (fun fst is1 => ?_) _ mem) name
    obtain rfl := Option.some.inj is1
    exact same.wellFormed.current

/-- The last scope is not closed. -/
lemma popScope_of_last (last : stack.outer = []) : table.popScope = table := by
  obtain ⟨out, _, _, around, ⟨parent, syms⟩, found, rest⟩ := same.exists_outer
  rw [last] at around
  cases around
  cases rest
  rw [popScope, found]

lemma pop : table.popScope.Implements (opened.step .pop) stack.pop := by
  obtain ⟨out, numbers, own, around, ⟨parent, syms⟩, found, rest⟩ := same.exists_outer
  obtain ⟨innermost, levels⟩ := stack
  cases rest with
  | outside =>
    cases around
    have stays : opened.step .pop = opened := by simp only [OpenFrames.step, numbers]
    rw [same.popScope_of_last rfl, stays]
    exact same
  | @frame parent frame further foundParent chain =>
    cases around with
    | cons decl levels =>
      have closed : table.popScope = { table with current := parent } := by rw [popScope, found]
      have around : table.ChainsTo (some parent) (parent :: further) := .frame foundParent chain
      have nums' : (opened.step .pop).numbers = parent :: further := by
        simp only [OpenFrames.step, numbers]
      refine ⟨wellFormed_popScope same.wellFormed, ?_, ?_, ?_⟩
      · rw [closed]
        simp only [OpenFrames.step, numbers, same.size]
      · have kept := around.mono (step_keeps_parents table .pop)
        rw [nums']
        simpa only [SymbolTable.step, closed] using kept
      · rw [nums', closed]
        exact .cons decl levels

lemma declare (name : String) (ty : Ty) :
    (table.declare name ty).2.Implements opened (stack.declare name ty).2 := by
  obtain ⟨out, numbers, own, around, frame, found, rest⟩ := same.exists_outer
  refine ⟨wellFormed_declare same.wellFormed name ty, ?_, ?_, ?_⟩
  · rw [← same.size]
    simp [SymbolTable.declare]
  · exact same.chain.mono (step_keeps_parents table (.declare name ty))
  · rw [numbers]
    refine .cons (fun asked => ?_) ?_
    · rw [declaredIn_declare_current same.wellFormed]
      change _ = (stack.innermost.insert name ty).lookup asked
      by_cases isName : asked = name
      · subst isName
        simp
      · rw [if_neg isName, Finmap.lookup_insert_of_ne _ isName]
        exact own asked
    · refine around.congr fun number mem asked => declaredIn_declare table name ty ?_ asked
      exact Nat.ne_of_lt (rest.lt same.wellFormed
        (fun parent child => same.wellFormed.parents _ frame parent found child) number mem)

lemma step (step : ScopeStep) :
    (table.step step).Implements (opened.step step) (stack.step step) := by
  cases step with
  | push => exact same.push
  | pop => exact same.pop
  | declare name ty => exact same.declare name ty

lemma run (steps : List ScopeStep) :
    (table.run steps).Implements (steps.foldl OpenFrames.step opened) (stack.run steps) := by
  induction steps generalizing table opened stack with
  | nil => exact same
  | cons step steps ih => exact ih (same.step step)

end Implements

/-- After any steps from the empty table. -/
lemma implements_run (steps : List ScopeStep) :
    (empty.run steps).Implements (.run steps) (ScopeStack.empty.run steps) :=
  implements_empty.run steps

/-! ## Searches -/

/-- The search for a name, from the frame with the given number outwards, ends with an answer. The
number of its steps is not bounded. -/
inductive SearchEnds (table : SymbolTable) (name : String) : Nat → Option Ty → Prop
  | missing {number : Nat} : table.frames[number]? = none → SearchEnds table name number none
  | found {number : Nat} {frame : Frame} {ty : Ty} : table.frames[number]? = some frame →
      frame.symbols.get? name = some ty → SearchEnds table name number (some ty)
  | outermost {number : Nat} {frame : Frame} : table.frames[number]? = some frame →
      frame.symbols.get? name = none → frame.parent = none → SearchEnds table name number none
  | outward {number parent : Nat} {frame : Frame} {answer : Option Ty} :
      table.frames[number]? = some frame → frame.symbols.get? name = none →
        frame.parent = some parent → SearchEnds table name parent answer →
          SearchEnds table name number answer

lemma SearchEnds.unique {name : String} {answer oth : Option Ty}
    (ends : table.SearchEnds name number answer) (ends' : table.SearchEnds name number oth) :
    answer = oth := by
  induction ends with
  | missing none | found frame bound | outermost frame free child => cases ends' <;> simp_all
  | outward frame free child _ ih =>
    cases ends' with
    | missing | found | outermost => simp_all
    | outward frame' _ child' rest =>
      obtain rfl := Option.some.inj (frame.symm.trans frame')
      obtain rfl := Option.some.inj (child.symm.trans child')
      exact ih rest

lemma searchEnds_walk (wf : table.WellFormed) (name : String) {steps : Nat}
    (enough : number < steps) : table.SearchEnds name number (table.walk name steps number) := by
  induction number using Nat.strongRecOn generalizing steps with
  | _ number ih =>
    obtain ⟨more, rfl⟩ : ∃ more, steps = more + 1 := ⟨steps - 1, by omega⟩
    simp only [walk]
    cases found : table.frames[number]? with
    | none => exact .missing found
    | some frame =>
      cases bound : frame.symbols.get? name with
      | some ty => simpa only [bound] using .found found bound
      | none =>
        cases child : frame.parent with
        | none => simpa only [bound, child] using .outermost found bound child
        | some parent =>
          have earlier := wf.parents number frame parent found child
          simp only [bound, child]
          exact .outward found bound child (ih parent earlier (by omega))

/-- The search ends from every number, and `lookupFrom` gives its answer. -/
lemma searchEnds_iff (wf : table.WellFormed) (number : Nat) (name : String) (answer : Option Ty) :
    table.SearchEnds name number answer ↔ table.lookupFrom number name = answer := by
  have ends : table.SearchEnds name number (table.lookupFrom number name) := by
    rcases Nat.lt_or_ge number table.frames.size with ins | beyond
    · exact searchEnds_walk wf name ins
    · have none : table.frames[number]? = none := Array.getElem?_eq_none beyond
      obtain ⟨steps, size⟩ : ∃ steps, table.frames.size = steps + 1 :=
        ⟨table.frames.size - 1, by have := wf.current; omega⟩
      rw [lookupFrom, size, walk, none]
      exact .missing none
  exact ⟨ends.unique, fun same => same ▸ ends⟩

/-! ## Runs -/

/-- Every frame was opened at some moment, and was then the current and last one. -/
lemma exists_opening (steps : List ScopeStep) (ins : number < (empty.run steps).frames.size) :
    ∃ before after, steps = before ++ after ∧ (empty.run before).current = number
      ∧ (empty.run before).frames.size = number + 1 := by
  induction steps using List.reverseRecOn with
  | nil =>
    obtain rfl : number = 0 := Nat.lt_one_iff.mp ins
    exact ⟨[], [], rfl, rfl, rfl⟩
  | append_singleton steps step ih =>
    by_cases earlier : number < (empty.run steps).frames.size
    · obtain ⟨before, after, rfl, opened⟩ := ih earlier
      exact ⟨before, after ++ [step], append_assoc .., opened⟩
    · refine ⟨steps ++ [step], [], (append_nil _).symm, ?_⟩
      rw [run_append] at ins ⊢
      cases step with
      | push =>
        have size : ((empty.run steps).run [.push]).frames.size
            = (empty.run steps).frames.size + 1 := Array.size_push _
        have last : (empty.run steps).frames.size = number := by omega
        exact ⟨last, by rw [size, last]⟩
      | pop =>
        have size : ((empty.run steps).run [.pop]).frames.size = (empty.run steps).frames.size := by
          change (empty.run steps).popScope.frames.size = _
          rw [popScope]
          split <;> rfl
        omega
      | declare name ty =>
        have size : ((empty.run steps).run [.declare name ty]).frames.size
            = (empty.run steps).frames.size := Array.size_modify
        omega

/-- A frame is looked up through the frames that were open around it, in what they declare now. -/
lemma lookupFrom_current (before after : List ScopeStep) (name : String) :
    (empty.run (before ++ after)).lookupFrom (empty.run before).current name
      = (OpenFrames.run before).numbers.findSome? fun number =>
          (empty.run (before ++ after)).declaredIn number name := by
  have wf := (implements_run (before ++ after)).wellFormed
  have chain := (implements_run before).chain.mono (run_keeps_parents _ after)
  rw [← run_append] at chain
  obtain ⟨frame, found, _⟩ := run_keeps_parents _ after _ _
    (Array.getElem?_eq_getElem (implements_run before).wellFormed.current)
  rw [← run_append] at found
  exact chain.walk wf name (Array.getElem?_eq_some_iff.mp found).1

/-- The table is a stack of scopes, whatever steps have been taken:

* a name means what the innermost scope that declares it says, and a declaration gives what the
  name was in the same scope;
* the last scope is not closed, and a scope that is closed leaves no trace in what any name means,
  then or after further steps;
* every frame lies after the one around it, and from every number the search for a name ends, with
  the answer of `lookupFrom`;
* every frame that was ever opened is still looked up through the frames that were open then. -/
theorem run_refines_stack (steps : List ScopeStep) :
    (∀ name, (empty.run steps).lookup name = (ScopeStack.empty.run steps).lookup name)
      ∧ (∀ name ty, ((empty.run steps).declare name ty).1
          = ((ScopeStack.empty.run steps).declare name ty).1)
      ∧ ((ScopeStack.empty.run steps).outer = [] →
          (empty.run steps).popScope = empty.run steps)
      ∧ (∀ inside, ScopeStep.Nested inside → ∀ after name,
          (empty.run (steps ++ .push :: (inside ++ .pop :: after))).lookup name
            = (empty.run (steps ++ after)).lookup name)
      ∧ (∀ (number parent : Nat) (frame : Frame), (empty.run steps).frames[number]? = some frame →
          frame.parent = some parent → parent < number)
      ∧ (∀ number name answer, (empty.run steps).SearchEnds name number answer
          ↔ (empty.run steps).lookupFrom number name = answer)
      ∧ ∀ number < (empty.run steps).frames.size, ∃ before after, steps = before ++ after
          ∧ (empty.run before).current = number
          ∧ (empty.run before).frames.size = number + 1
          ∧ ∀ name, (empty.run steps).lookupFrom number name
              = (OpenFrames.run before).numbers.findSome? fun around =>
                  (empty.run steps).declaredIn around name := by
  have same := implements_run steps
  refine ⟨same.lookup, fun name ty => ?_, same.popScope_of_last, fun inside nested after name => ?_,
    fun number parent frame => same.wellFormed.parents number frame parent,
    searchEnds_iff same.wellFormed, fun number inside => ?_⟩
  · obtain ⟨_, _, own, _⟩ := same.exists_outer
    exact own name
  · rw [(implements_run _).lookup, (implements_run _).lookup, ScopeStack.run_append,
      ScopeStack.run_push_pop (ScopeStack.outer_run nested _), ScopeStack.run_append]
  · obtain ⟨before, after, rfl, rfl, size⟩ := exists_opening steps inside
    exact ⟨before, after, rfl, rfl, size, lookupFrom_current before after⟩

/-- A name that is declared again in an inner scope: the inner meaning ends with the scope, and the
one scope that is left is not closed. -/
theorem run_refines_stack_shadowed :
    let outside : List ScopeStep := [.declare "x" .float]
    let inside : List ScopeStep := [.declare "x" .int, .push, .declare "x" .bool, .pop]
    ScopeStep.Nested inside
      ∧ (empty.run (outside ++ .push :: inside)).lookup "x" = some .int
      ∧ (empty.run (outside ++ .push :: (inside ++ .pop :: []))).lookup "x" = some .float
      ∧ (empty.run outside).popScope = empty.run outside := by
  intro outside inside
  have nested : ScopeStep.Nested inside := .declare _ _ (.scope (.declare _ _ .nil) .nil)
  refine ⟨nested, ?_, ?_, (run_refines_stack outside).2.2.1 rfl⟩
  · rw [(run_refines_stack _).1]
    rfl
  · rw [(run_refines_stack outside).2.2.2.1 inside nested []]
    rfl

end SymbolTable

end ShaderAlgebra
