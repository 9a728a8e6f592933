import ShaderAlgebra.Proofs.Typing.Annotated

/-!
# Annotations that a tree comes with

Inference reads the form of a tree, its names and its literals, and never the annotations that are in
it already. `Expr.erased` forgets every annotation. Inference cannot tell a tree from its erasure,
neither in the tree that it gives nor in the text of an error, and what it gives has the erasure that
it was given.
-/

namespace ShaderAlgebra.Expr

open List

mutual

/-- The tree without its annotations. -/
def erased : Expr → Expr
  | .literal value _ => .literal value .unknown
  | .ident name _ => .ident name .unknown
  | .field base name _ => .field (erased base) name .unknown
  | .index base position _ => .index (erased base) (erased position) .unknown
  | .unary op operand _ => .unary op (erased operand) .unknown
  | .binary op left right _ => .binary op (erased left) (erased right) .unknown
  | .call function arguments _ => .call function (erasedAll arguments) .unknown
  | .conditional condition accept reject _ =>
    .conditional (erased condition) (erased accept) (erased reject) .unknown
  | .assign op target value _ => .assign op (erased target) (erased value) .unknown

def erasedAll : List Expr → List Expr
  | [] => []
  | e :: es => erased e :: erasedAll es

end

lemma erasedAll_eq_map (es : List Expr) : erasedAll es = es.map erased := by
  induction es with
  | nil => rfl
  | cons e es ih => rw [erasedAll, ih, map_cons]

/-- The erasure of a node is determined by its head and the erasures of its parts. -/
lemma erased_congr {e t : Expr} (heads : e.head = t.head)
    (parts : e.children.map erased = t.children.map erased) : e.erased = t.erased := by
  cases e <;> cases t <;> simp_all [head, children, erased, erasedAll_eq_map]

/-! ## Text -/

lemma strength_erased (e : Expr) : e.erased.strength = e.strength := by
  cases e <;> rfl

lemma startsWithMinus_erased (e : Expr) : e.erased.startsWithMinus = e.startsWithMinus := by
  cases e with
  | unary op => cases op <;> rfl
  | _ => rfl

lemma textArguments_erased {es : List Expr} (parts : ∀ e ∈ es, e.erased.text = e.text) :
    textArguments (es.map erased) = textArguments es := by
  induction es with
  | nil => rfl
  | cons e es ih =>
    have fst := parts e mem_cons_self
    have rest := ih fun oth mem => parts oth (mem_cons_of_mem e mem)
    cases es with
    | nil => simp only [List.map, textArguments, strength_erased, fst]
    | cons next es =>
      simp only [map_cons, textArguments, strength_erased, fst] at rest ⊢
      rw [rest]

/-- Annotations are not written. -/
lemma text_erased (e : Expr) : e.erased.text = e.text := by
  induction e using Expr.induction with
  | node e ih =>
    cases e with
    | call fn args =>
      have same : textArguments (args.map erased) = _ := textArguments_erased ih
      rw [erased, text, text, erasedAll_eq_map, same]
    | assign op => cases op <;> simp only [erased, text, ih _ mem_target, ih _ mem_value]
    | _ =>
      simp only [children, forall_mem_cons, not_mem_nil, false_imp_iff, implies_true,
        and_true] at ih
      simp only [erased, text, strength_erased, startsWithMinus_erased, ih]

/-! ## Inference -/

variable {site : Site}

lemma inferAll_erased {es : List Expr} (parts : ∀ e ∈ es, e.erased.infer site = e.infer site) :
    inferAll site (es.map erased) = inferAll site es := by
  induction es with
  | nil => rfl
  | cons e es ih =>
    rw [map_cons, inferAll, inferAll, parts e mem_cons_self,
      ih fun oth mem => parts oth (mem_cons_of_mem e mem)]

/-- Inference does not read annotations. -/
lemma infer_erased (e : Expr) : e.erased.infer site = e.infer site := by
  induction e using Expr.induction with
  | node e ih =>
    -- An error shows the text of the node, which is that of the erased node.
    have shown := text_erased e
    cases e with
    | call fn args ty =>
      have same : inferAll site (args.map erased) = _ := inferAll_erased ih
      rw [erased, erasedAll_eq_map] at shown ⊢
      simp only [infer, same, Site.callType, shown]
    | _ =>
      simp only [children, forall_mem_cons, not_mem_nil, false_imp_iff, implies_true,
        and_true] at ih
      rw [erased] at shown ⊢
      simp only [infer, ih, Site.built, Site.errorAt, shown]

/-- What inference gives differs from what it was given in annotations only. -/
lemma erased_of_infer {e t : Expr} (inf : e.infer site = .ok t) : t.erased = e.erased := by
  induction e using Expr.induction generalizing t with
  | node e ih =>
    obtain ⟨heads, parts, -⟩ := infer_fits inf
    refine (erased_congr heads ?_).symm
    refine ext_getElem (by simp [parts.length_eq]) fun i before after => ?_
    rw [length_map] at before after
    rw [getElem_map, getElem_map]
    exact (ih _ (getElem_mem before) (parts.get before after)).symm

/-- Inference ignores annotations that are there already: trees that differ in nothing else have the
same result. It changes nothing else, and inferring again changes nothing. -/
theorem infer_eq_of_erased_eq {e e' : Expr} (site : Site) (same : e.erased = e'.erased) :
    e.infer site = e'.infer site
      ∧ ∀ t, e.infer site = .ok t → t.erased = e.erased ∧ t.infer site = .ok t := by
  refine ⟨?_, fun t inferred => ⟨erased_of_infer inferred, ?_⟩⟩
  · rw [← infer_erased e, same, infer_erased]
  · exact infer_eq_self_iff.mpr (isAnnotated_of_infer inferred)

/-- `v.xy *= 2` is inferred alike from a tree without annotations and from one with wrong ones. -/
theorem infer_eq_of_erased_eq_scaled :
    let site : Site := ⟨(SymbolTable.empty.declare "v" (.vector .three .float)).2, none⟩
    let scaled (v xy two all : Ty) : Expr := .assign (some .multiply)
      (.field (.ident "v" v) "xy" xy) (.literal (.int 2) two) all
    let plain := scaled .unknown .unknown .unknown .unknown
    let wrong := scaled Ty.int (.matrix .two .two) Ty.bool .void
    let annotated :=
      scaled (.vector .three .float) (.vector .two .float) Ty.int (.vector .two .float)
    wrong.infer site = .ok annotated ∧ plain.infer site = .ok annotated
      ∧ annotated.erased = plain := by
  intro site scaled plain wrong annotated
  have inferred : wrong.infer site = .ok annotated := by rfl
  have alike : wrong.erased = plain.erased := by rfl
  obtain ⟨same, kept⟩ := infer_eq_of_erased_eq site alike
  exact ⟨inferred, same ▸ inferred, (kept annotated inferred).1⟩

end ShaderAlgebra.Expr
