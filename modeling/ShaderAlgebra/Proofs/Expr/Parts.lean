import Mathlib.Tactic.Lemma
import ShaderAlgebra.Expr.Basic

/-!
# Parts of an expression

Most walks over a tree do the same thing at every node: they treat the direct parts and then look at
the node. The lemmas here let a proof follow that shape once, in place of one case per constructor.

`Expr.induction` is induction over the direct parts. `Expr.mapParts` replaces the direct parts and
keeps everything else of the node. `Expr.Within` is the relation between a tree and its subtrees.
-/

namespace ShaderAlgebra.Expr

open List

/-! ## Induction over the parts -/

lemma sizeOf_lt_of_mem_children {e part : Expr} (mem : part ∈ e.children) :
    sizeOf part < sizeOf e := by
  cases e with
  | call name args ty =>
    have smaller : sizeOf part < sizeOf args := sizeOf_lt_of_mem mem
    simp
    omega
  | literal | ident => cases mem
  | _ =>
    simp only [children, mem_cons, not_mem_nil, or_false] at mem
    rcases mem with rfl | rfl | rfl <;> simp <;> omega

/-- What holds of a tree whenever it holds of its direct parts holds of every tree. -/
lemma induction {P : Expr → Prop} (node : ∀ e : Expr, (∀ part ∈ e.children, P part) → P e)
    (e : Expr) : P e :=
  node e fun part _ => induction node part
termination_by sizeOf e
decreasing_by exact sizeOf_lt_of_mem_children ‹_›

/-! ## Parts by name -/

section Members

variable {op : BinaryOp} {sign : UnaryOp} {assigning : Option BinaryOp} {name : String} {ty : Ty}
  {base position operand left right condition accept reject target value fst snd third : Expr}
  {rest : List Expr}

lemma mem_base : base ∈ (field base name ty).children := .head _

lemma mem_indexed : base ∈ (index base position ty).children := .head _

lemma mem_position : position ∈ (index base position ty).children := .tail _ (.head _)

lemma mem_operand : operand ∈ (unary sign operand ty).children := .head _

lemma mem_left : left ∈ (binary op left right ty).children := .head _

lemma mem_right : right ∈ (binary op left right ty).children := .tail _ (.head _)

lemma mem_first : fst ∈ (call name (fst :: rest) ty).children := .head _

lemma mem_second : snd ∈ (call name (fst :: snd :: rest) ty).children := .tail _ (.head _)

lemma mem_third : third ∈ (call name (fst :: snd :: third :: rest) ty).children :=
  .tail _ (.tail _ (.head _))

lemma mem_condition : condition ∈ (conditional condition accept reject ty).children := .head _

lemma mem_accept : accept ∈ (conditional condition accept reject ty).children := .tail _ (.head _)

lemma mem_reject : reject ∈ (conditional condition accept reject ty).children :=
  .tail _ (.tail _ (.head _))

lemma mem_target : target ∈ (assign assigning target value ty).children := .head _

lemma mem_value : value ∈ (assign assigning target value ty).children := .tail _ (.head _)

end Members

/-! ## Replacing the parts -/

/-- The node with each direct part replaced. Its own annotation stays. -/
def mapParts (f : Expr → Expr) : Expr → Expr
  | .literal value ty => .literal value ty
  | .ident name ty => .ident name ty
  | .field base name ty => .field (f base) name ty
  | .index base position ty => .index (f base) (f position) ty
  | .unary op operand ty => .unary op (f operand) ty
  | .binary op left right ty => .binary op (f left) (f right) ty
  | .call function arguments ty => .call function (arguments.map f) ty
  | .conditional condition accept reject ty =>
    .conditional (f condition) (f accept) (f reject) ty
  | .assign op target value ty => .assign op (f target) (f value) ty

@[simp] lemma ty_mapParts (f : Expr → Expr) (e : Expr) : (e.mapParts f).ty = e.ty := by
  cases e <;> rfl

lemma children_mapParts (f : Expr → Expr) (e : Expr) :
    (e.mapParts f).children = e.children.map f := by
  cases e <;> rfl

variable {e : Expr} {P : Expr → Prop}

/-- Replacing every part by itself changes nothing. -/
lemma mapParts_eq_self {f : Expr → Expr} (same : ∀ part ∈ e.children, f part = part) :
    e.mapParts f = e := by
  cases e with
  | call fn args ty =>
    have kept : args.map f = args := by simpa [children] using map_congr_left (g := id) same
    simp only [mapParts, kept]
  | _ => simp_all [mapParts, children]

/-! ## Subtrees -/

/-- The first tree is the second or a part of it, at any depth. -/
inductive Within (e : Expr) : Expr → Prop
  | root : Within e e
  | part {node child : Expr} : child ∈ node.children → Within e child → Within e node

lemma Within.trans {s t : Expr} (inner : Within s t) (out : Within t e) : Within s e := by
  induction out with
  | root => exact inner
  | part mem _ ih => exact .part mem ih

/-- A property of every subtree is a property of the root and of every subtree of its parts. -/
lemma forall_within_iff :
    (∀ s, Within s e → P s) ↔ P e ∧ ∀ part ∈ e.children, ∀ s, Within s part → P s := by
  constructor
  · intro all
    exact ⟨all e .root, fun part mem s ins => all s (.part mem ins)⟩
  · rintro ⟨root, parts⟩ s ins
    cases ins with
    | root => exact root
    | part mem inner => exact parts _ mem s inner

lemma within_leaf (alone : e.children = []) (root : P e) : ∀ s, Within s e → P s :=
  forall_within_iff.mpr ⟨root, by simp [alone]⟩

lemma within_single {only : Expr} (parts : e.children = [only])
    (root : P e) (inner : ∀ s, Within s only → P s) : ∀ s, Within s e → P s :=
  forall_within_iff.mpr ⟨root, by simpa [parts] using inner⟩

lemma within_pair {left right : Expr} (parts : e.children = [left, right])
    (root : P e) (fst : ∀ s, Within s left → P s) (snd : ∀ s, Within s right → P s) :
    ∀ s, Within s e → P s :=
  forall_within_iff.mpr ⟨root, by simpa [parts] using ⟨fst, snd⟩⟩

mutual

/-- The subtrees in a list, the root first. -/
def nodes : Expr → List Expr
  | .literal value ty => [.literal value ty]
  | .ident name ty => [.ident name ty]
  | .field base name ty => .field base name ty :: nodes base
  | .index base position ty => .index base position ty :: (nodes base ++ nodes position)
  | .unary op operand ty => .unary op operand ty :: nodes operand
  | .binary op left right ty => .binary op left right ty :: (nodes left ++ nodes right)
  | .call function arguments ty => .call function arguments ty :: nodesOfAll arguments
  | .conditional condition accept reject ty =>
    .conditional condition accept reject ty :: (nodes condition ++ nodes accept ++ nodes reject)
  | .assign op target value ty => .assign op target value ty :: (nodes target ++ nodes value)

def nodesOfAll : List Expr → List Expr
  | [] => []
  | e :: es => nodes e ++ nodesOfAll es

end

/-- A walk that appends what the members of a list give. -/
lemma walk_eq_flatMap {α β : Type} {f : α → List β} (walk : List α → List β) (nil : walk [] = [])
    (cons : ∀ x xs, walk (x :: xs) = f x ++ walk xs) (xs : List α) : walk xs = xs.flatMap f := by
  induction xs with
  | nil => exact nil
  | cons x xs ih => rw [cons, ih, flatMap_cons]

lemma nodesOfAll_eq (es : List Expr) : nodesOfAll es = es.flatMap nodes :=
  walk_eq_flatMap _ rfl (fun _ _ => rfl) es

lemma mem_nodes {s : Expr} : s ∈ e.nodes ↔ Within s e := by
  have unfolded (e : Expr) : s ∈ e.nodes ↔ s = e ∨ ∃ part ∈ e.children, s ∈ part.nodes := by
    cases e <;> simp [nodes, children, nodesOfAll_eq]
  induction e using Expr.induction with
  | node e ih =>
    rw [unfolded]
    constructor
    · rintro (rfl | ⟨part, mem, ins⟩)
      · exact .root
      · exact .part mem ((ih part mem).mp ins)
    · intro ins
      cases ins with
      | root => exact .inl rfl
      | part mem inner => exact .inr ⟨_, mem, (ih _ mem).mpr inner⟩

/-! ## Trees that agree -/

/-- What trees that agree have in common is the same in lists that agree. -/
lemma map_eq_of_agreeAll {α : Type} {F : Expr → α} {as bs : List Expr} (agree : agreeAll as bs)
    (parts : ∀ a ∈ as, ∀ b, a.agrees b → F a = F b) : as.map F = bs.map F := by
  induction as generalizing bs with
  | nil =>
    cases bs with
    | nil => rfl
    | cons _ _ => cases agree
  | cons a as ih =>
    cases bs with
    | nil => cases agree
    | cons b bs =>
      simp only [agreeAll, Bool.and_eq_true] at agree
      rw [map_cons, map_cons, parts a mem_cons_self b agree.1,
        ih agree.2 fun oth mem => parts oth (mem_cons_of_mem _ mem)]

/-! ## Mentioned names -/

lemma mentionsAny_eq (name : String) (es : List Expr) :
    mentionsAny name es = es.any (mentions name) := by
  induction es with
  | nil => rfl
  | cons e es ih => rw [mentionsAny, ih, any_cons]

/-- What a part mentions the tree mentions. -/
lemma mentions_of_part {name : String} {part : Expr} (mem : part ∈ e.children)
    (ment : part.mentions name) : e.mentions name := by
  cases e with
  | call fn args ty =>
    rw [mentions, mentionsAny_eq]
    exact any_eq_true.mpr ⟨part, mem, ment⟩
  | literal | ident => cases mem
  | _ =>
    simp only [children, mem_cons, not_mem_nil, or_false] at mem
    simp only [mentions, Bool.or_eq_true]
    grind

end ShaderAlgebra.Expr
