import Mathlib.Tactic.Lemma
import ShaderAlgebra.Typing.Check

/-!
# Scopes of the symbol table

In a well-formed table every frame lies after its parent, so a walk outwards comes to an end and
meets only earlier frames. Then a name means what the innermost open scope says: opening a scope
changes nothing (`lookup_pushScope`), and a declaration changes the meaning of its own name only
(`lookup_declare`).

A table is extended when names are declared in its current frame and scopes are opened and closed
again inside it (`Extends`). Closing a scope after that leaves every name with the meaning that it
had before the scope was opened (`lookup_popScope`).
-/

namespace ShaderAlgebra.SymbolTable

variable {table later oth : SymbolTable}

/-- Every frame lies after its parent, and the current frame is there. -/
structure WellFormed (table : SymbolTable) : Prop where
  current : table.current < table.frames.size
  parents : ∀ (i : Nat) (frame : Frame) (parent : Nat),
    table.frames[i]? = some frame → frame.parent = some parent → parent < i

lemma wellFormed_empty : empty.WellFormed := by
  refine ⟨by decide, fun i frame parent found child => ?_⟩
  rcases i with _ | i
  · obtain rfl : (⟨none, .empty⟩ : Frame) = frame := by simpa [empty] using found
    cases child
  · simp [empty] at found

/-! ## Walks -/

/-- A walk depends on no frame after the one it starts from, and on no step after it has met them
all. -/
lemma walk_congr (wf : table.WellFormed) (name : String) {bound : Nat}
    (same : ∀ i ≤ bound, oth.frames[i]? = table.frames[i]?) {start steps steps' : Nat}
    (within : start ≤ bound) (enough : start < steps) (enough' : start < steps') :
    oth.walk name steps' start = table.walk name steps start := by
  induction start using Nat.strongRecOn generalizing steps steps' with
  | _ start ih =>
    obtain ⟨more, rfl⟩ : ∃ more, steps = more + 1 := ⟨steps - 1, by omega⟩
    obtain ⟨more', rfl⟩ : ∃ more', steps' = more' + 1 := ⟨steps' - 1, by omega⟩
    simp only [walk, same start within]
    cases found : table.frames[start]? with
    | none => rfl
    | some frame =>
      cases bound : frame.symbols.get? name with
      | some ty => simp only [bound]
      | none =>
        cases child : frame.parent with
        | none => simp only [bound, child]
        | some parent =>
          have earlier := wf.parents start frame parent found child
          simp only [bound, child]
          exact ih parent earlier (by omega) (by omega) (by omega)

/-- Tables with the same frames up to the current one give names the same meaning. -/
lemma lookup_congr (wf : table.WellFormed) (wf' : oth.WellFormed)
    (current : oth.current = table.current)
    (same : ∀ i ≤ table.current, oth.frames[i]? = table.frames[i]?) :
    oth.lookup = table.lookup := by
  funext name
  simp only [lookup, lookupFrom, current]
  exact walk_congr wf name same (Nat.le_refl _) wf.current (current ▸ wf'.current)

/-! ## Opening a scope -/

lemma wellFormed_pushScope (wf : table.WellFormed) : table.pushScope.WellFormed := by
  refine ⟨by simp [pushScope], fun i frame parent found child => ?_⟩
  simp only [pushScope, Array.getElem?_push] at found
  split at found
  · next last =>
    obtain rfl := Option.some.inj found
    obtain rfl : table.current = parent := Option.some.inj child
    rw [last]
    exact wf.current
  · exact wf.parents i frame parent found child

/-- A new scope hides nothing. -/
lemma lookup_pushScope (wf : table.WellFormed) : table.pushScope.lookup = table.lookup := by
  funext name
  have last : table.pushScope.frames[table.frames.size]? = some ⟨some table.current, .empty⟩ := by
    simp [pushScope]
  have size : table.pushScope.frames.size = table.frames.size + 1 := by simp [pushScope]
  have fst : table.pushScope.lookup name
      = table.pushScope.walk name table.frames.size table.current := by
    simp only [lookup, lookupFrom, size]
    rw [show table.pushScope.current = table.frames.size from rfl, walk, last]
    rfl
  rw [fst]
  refine walk_congr wf name (fun i le => ?_) (Nat.le_refl _) wf.current wf.current
  have ins : i < table.frames.size := Nat.lt_of_le_of_lt le wf.current
  simp [pushScope, Array.getElem?_push, Nat.ne_of_lt ins]

/-! ## Declaring a name -/

lemma getElem?_declare (table : SymbolTable) (name : String) (ty : Ty) (i : Nat) :
    (table.declare name ty).2.frames[i]? = if i = table.current then
          (table.frames[i]?).map fun frame => { frame with symbols := frame.symbols.set name ty }
        else table.frames[i]? := by
  simp only [declare, Array.getElem?_modify, eq_comm]

lemma wellFormed_declare (wf : table.WellFormed) (name : String) (ty : Ty) :
    (table.declare name ty).2.WellFormed := by
  refine ⟨by simpa [declare] using wf.current, fun i frame parent found child => ?_⟩
  rw [getElem?_declare] at found
  split at found
  · obtain ⟨old, foundOld, rfl⟩ := Option.map_eq_some_iff.mp found
    exact wf.parents i old parent foundOld child
  · exact wf.parents i frame parent found child

/-- A declaration changes the meaning of its own name, and of no other. -/
lemma lookup_declare (wf : table.WellFormed) (name oth : String) (ty : Ty) :
    (table.declare name ty).2.lookup oth = if oth = name then some ty else table.lookup oth := by
  obtain ⟨frame, found⟩ : ∃ frame, table.frames[table.current]? = some frame :=
    ⟨_, Array.getElem?_eq_getElem wf.current⟩
  obtain ⟨steps, size⟩ : ∃ steps, table.frames.size = steps + 1 :=
    ⟨table.frames.size - 1, by have := wf.current; omega⟩
  have sizeAfter : (table.declare name ty).2.frames.size = steps + 1 := by simp [declare, size]
  have foundAfter : (table.declare name ty).2.frames[table.current]?
      = some { frame with symbols := frame.symbols.set name ty } := by
    rw [getElem?_declare, if_pos rfl, found]
    rfl
  simp only [lookup, lookupFrom, size, sizeAfter]
  rw [show (table.declare name ty).2.current = table.current from rfl]
  simp only [walk, found, foundAfter, Bindings.get?_set]
  by_cases own : oth = name
  · simp [own]
  · simp only [own, if_false]
    cases bound : frame.symbols.get? oth with
    | some known => rfl
    | none =>
      cases child : frame.parent with
      | none => rfl
      | some parent =>
        -- The rest of the walk meets earlier frames only, and those are as they were.
        have earlier := wf.parents _ frame parent found child
        have ins := wf.current
        have kept : ∀ i ≤ parent,
            (table.declare name ty).2.frames[i]? = table.frames[i]? := fun i le => by
          rw [getElem?_declare, if_neg (by omega)]
        exact walk_congr wf oth kept (Nat.le_refl _) (by omega) (by omega)

/-! ## Closing a scope -/

/-- What a table may have become while its current scope is open: names are declared in the current
frame and frames are added, and everything else stays. -/
structure Extends (table later : SymbolTable) : Prop where
  wellFormed : later.WellFormed
  current : later.current = table.current
  functions : later.functions = table.functions
  structs : later.structs = table.structs
  size : table.frames.size ≤ later.frames.size
  frames : ∀ i < table.frames.size, i ≠ table.current → later.frames[i]? = table.frames[i]?
  parent : later.frames[table.current]?.map Frame.parent
    = table.frames[table.current]?.map Frame.parent

lemma Extends.refl (wf : table.WellFormed) : Extends table table :=
  ⟨wf, rfl, rfl, rfl, Nat.le_refl _, fun _ _ _ => rfl, rfl⟩

lemma Extends.trans {last : SymbolTable} (fst : Extends table later)
    (snd : Extends later last) : Extends table last where
  wellFormed := snd.wellFormed
  current := snd.current.trans fst.current
  functions := snd.functions.trans fst.functions
  structs := snd.structs.trans fst.structs
  size := Nat.le_trans fst.size snd.size
  frames i inside oth :=
    (snd.frames i (Nat.lt_of_lt_of_le inside fst.size) (fst.current ▸ oth)).trans
      (fst.frames i inside oth)
  parent := by
    have := snd.parent
    rw [fst.current] at this
    exact this.trans fst.parent

lemma overloads_congr (same : later.functions = table.functions) :
    later.overloads = table.overloads := by
  funext name
  rw [overloads, overloads, same]

lemma Extends.overloads (ext : Extends table later) : later.overloads = table.overloads :=
  overloads_congr ext.functions

lemma extends_declare (wf : table.WellFormed) (name : String) (ty : Ty) :
    Extends table (table.declare name ty).2 where
  wellFormed := wellFormed_declare wf name ty
  current := rfl
  functions := rfl
  structs := rfl
  size := by simp [declare]
  frames i _ oth := by rw [getElem?_declare, if_neg oth]
  parent := by
    rw [getElem?_declare, if_pos rfl]
    cases table.frames[table.current]? <;> rfl

section Popped

variable {table later : SymbolTable} (wf : table.WellFormed)
  (ext : Extends table.pushScope later)
include ext

/-- The frame that was opened still has the frame around it as its parent. -/
lemma popScope_eq : later.popScope = { later with current := table.current } := by
  have opn : later.current = table.frames.size := ext.current
  have parent := ext.parent
  simp only [pushScope, Array.getElem?_push_size, Option.map_some] at parent
  obtain ⟨frame, found, child⟩ := Option.map_eq_some_iff.mp parent
  obtain ⟨own, syms⟩ := frame
  obtain rfl : own = some table.current := child
  simp only [popScope, opn, found]

/-- The frames from before the scope was opened are as they were. -/
lemma getElem?_popScope {i : Nat} (ins : i < table.frames.size) :
    later.popScope.frames[i]? = table.frames[i]? := by
  rw [popScope_eq ext]
  have kept := ext.frames i (by simpa [pushScope] using Nat.lt_succ_of_lt ins) (Nat.ne_of_lt ins)
  rw [kept]
  simp [pushScope, Array.getElem?_push, Nat.ne_of_lt ins]

include wf

lemma extends_popScope : Extends table later.popScope := by
  have grown : table.frames.size < later.frames.size := by
    have := ext.size
    simp only [pushScope, Array.size_push] at this
    omega
  have shp := popScope_eq ext
  refine ⟨?_, ?_, ?_, ?_, ?_, fun i ins _ => getElem?_popScope ext ins, ?_⟩
  · rw [shp]
    exact ⟨Nat.lt_trans wf.current grown, ext.wellFormed.parents⟩
  · rw [shp]
  · rw [shp]
    exact ext.functions
  · rw [shp]
    exact ext.structs
  · rw [shp]
    exact Nat.le_of_lt grown
  · rw [getElem?_popScope ext wf.current]

/-- Closing a scope brings the meanings of the names back. -/
lemma lookup_popScope : later.popScope.lookup = table.lookup := by
  have out := extends_popScope wf ext
  refine lookup_congr wf out.wellFormed out.current fun i le => ?_
  exact getElem?_popScope ext (Nat.lt_of_le_of_lt le wf.current)

end Popped

/-! ## Lists of declarations -/

lemma extends_declareAll (wf : table.WellFormed) (decls : List (String × Ty)) :
    Extends table (table.declareAll decls) := by
  induction decls generalizing table with
  | nil => exact .refl wf
  | cons decl rest ih =>
    have fst := extends_declare wf decl.1 decl.2
    exact fst.trans (ih fst.wellFormed)

/-- After a list of declarations a name is one of them, or it means what it meant before. -/
lemma lookup_declareAll (wf : table.WellFormed) {decls : List (String × Ty)}
    {name : String} {ty : Ty} (found : (table.declareAll decls).lookup name = some ty) :
    (name, ty) ∈ decls ∨ table.lookup name = some ty := by
  induction decls generalizing table with
  | nil => exact .inr found
  | cons decl rest ih =>
    obtain ⟨own, dcl⟩ := decl
    rcases ih (wellFormed_declare wf own dcl) found with inRest | before
    · exact .inl (List.mem_cons_of_mem _ inRest)
    · rw [lookup_declare wf] at before
      split at before
      · next same =>
        cases before
        exact .inl (same ▸ List.mem_cons_self)
      · exact .inr before

/-! ## Functions and structs -/

lemma wellFormed_declareFunction (wf : table.WellFormed) (name : String) (overload : Overload) :
    (table.declareFunction name overload).WellFormed :=
  ⟨wf.current, wf.parents⟩

lemma wellFormed_declareStruct (wf : table.WellFormed) (decl : StructDef) :
    (table.declareStruct decl).WellFormed :=
  ⟨wf.current, wf.parents⟩

/-- The symbols that the checks of a shader start from. -/
lemma wellFormed_ofShader (sh : Shader) : (ofShader sh).WellFormed := by
  refine List.foldlRecOn sh.functions _ ?_ fun table wf f _ =>
    wellFormed_declareFunction wf f.name (table.overloadOf f)
  exact List.foldlRecOn sh.structs _ wellFormed_empty fun table wf decl _ =>
    wellFormed_declareStruct wf decl

end ShaderAlgebra.SymbolTable
