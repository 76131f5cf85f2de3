import CssSelector.Proofs.Specificity.Words
import CssSelector.Selector.Nesting

/-!
Selectors without what they say about the namespaces of elements. What is left of a selector still has the same
selectors inside it, as heavy as before, with the same attributes and the same arguments.
-/

namespace CssSelector

/-! ### Deleting scopes -/

/-- A condition on the namespace of the element. -/
def SimpleSelector.isScope : SimpleSelector → Bool
  | .inNamespace _ => true
  | _ => false

mutual

/-- What is left if the conditions on namespaces are deleted everywhere inside. -/
def SimpleSelector.unscoped : SimpleSelector → SimpleSelector
  | .negation branches => .negation (Selector.unscopedAll branches)
  | .relational branches => .relational (RelativeSelector.unscopedAll branches)
  | .matchesAny branches => .matchesAny (Selector.unscopedAll branches)
  | .weightless branches => .weightless (Selector.unscopedAll branches)
  | .localName name => .localName name
  | .inNamespace scope => .inNamespace scope
  | .id name => .id name
  | .className name => .className name
  | .attribute test => .attribute test
  | .pseudoClass name => .pseudoClass name
  | .functional name arguments => .functional name arguments

/-- A compound without its conditions on namespaces. -/
def CompoundSelector.unscoped : List SimpleSelector → List SimpleSelector
  | [] => []
  | s :: ss => if s.isScope then CompoundSelector.unscoped ss else s.unscoped :: CompoundSelector.unscoped ss

def ComplexSelector.unscoped : ComplexSelector → ComplexSelector
  | .compound simples => .compound (CompoundSelector.unscoped simples)
  | .combined left k right => .combined left.unscoped k (CompoundSelector.unscoped right)

def Selector.unscoped : Selector → Selector
  | ⟨tree, pseudoElement⟩ => ⟨tree.unscoped, pseudoElement⟩

def RelativeSelector.unscoped : RelativeSelector → RelativeSelector
  | ⟨k, selector⟩ => ⟨k, selector.unscoped⟩

def Selector.unscopedAll : List Selector → List Selector
  | [] => []
  | s :: ss => s.unscoped :: Selector.unscopedAll ss

def RelativeSelector.unscopedAll : List RelativeSelector → List RelativeSelector
  | [] => []
  | r :: rs => r.unscoped :: RelativeSelector.unscopedAll rs

end

def Branch.unscoped : Branch → Branch
  | absolute s => .absolute s.unscoped
  | relative r => .relative r.unscoped

/-! ### Selectors inside -/

mutual

/-- The selectors that a simple selector holds, on all levels. -/
def SimpleSelector.within : SimpleSelector → List Selector
  | .negation branches | .matchesAny branches | .weightless branches => Selector.allWithin branches
  | .relational branches => RelativeSelector.allWithin branches
  | .localName _ | .inNamespace _ | .id _ | .className _ | .attribute _ | .pseudoClass _ | .functional _ _ => []

def CompoundSelector.within : List SimpleSelector → List Selector
  | [] => []
  | s :: ss => s.within ++ CompoundSelector.within ss

def ComplexSelector.within : ComplexSelector → List Selector
  | .compound simples => CompoundSelector.within simples
  | .combined left _ right => left.within ++ CompoundSelector.within right

/-- The selector and all selectors inside it, in the order in which they begin. -/
def Selector.within : Selector → List Selector
  | ⟨tree, pseudoElement⟩ => ⟨tree, pseudoElement⟩ :: tree.within

def RelativeSelector.within : RelativeSelector → List Selector
  | ⟨_, selector⟩ => selector.within

def Selector.allWithin : List Selector → List Selector
  | [] => []
  | s :: ss => s.within ++ Selector.allWithin ss

def RelativeSelector.allWithin : List RelativeSelector → List Selector
  | [] => []
  | r :: rs => r.within ++ RelativeSelector.allWithin rs

end

def Branch.within (p : Branch) : List Selector := p.toSelector.within

/-- The simple selectors of all compounds of a chain, without those inside pseudo-classes. -/
def ComplexSelector.simples : ComplexSelector → List SimpleSelector
  | .compound simples => simples
  | .combined left _ right => left.simples ++ right

def SimpleSelector.attribute? : SimpleSelector → Option AttributeSelector
  | .attribute test => some test
  | _ => none

/-- The name and the arguments of a pseudo-class with arguments that are not selectors. -/
def SimpleSelector.functional? : SimpleSelector → Option (String × List ComponentValue)
  | .functional name arguments => some (name, arguments)
  | _ => none

/-- The conditions on attributes that a selector has outside of its pseudo-classes. -/
def Selector.attributes (s : Selector) : List AttributeSelector := s.tree.simples.filterMap SimpleSelector.attribute?

/-- The pseudo-classes with arguments that are not selectors, outside of all others. -/
def Selector.functionals (s : Selector) : List (String × List ComponentValue) :=
  s.tree.simples.filterMap SimpleSelector.functional?

/-! ### Compounds without scopes -/

theorem SimpleSelector.exists_eq_of_isScope {s : SimpleSelector} (h : s.isScope) : ∃ n, s = .inNamespace n := by
  cases s with
  | inNamespace n => exact ⟨n, rfl⟩
  | _ => simp [isScope] at h

@[simp] theorem SimpleSelector.isScope_unscoped (s : SimpleSelector) : s.unscoped.isScope = s.isScope := by
  cases s <;> simp [unscoped, isScope]

@[simp] theorem SimpleSelector.attribute?_unscoped (s : SimpleSelector) : s.unscoped.attribute? = s.attribute? := by
  cases s <;> simp [unscoped, attribute?]

@[simp] theorem SimpleSelector.functional?_unscoped (s : SimpleSelector) : s.unscoped.functional? = s.functional? := by
  cases s <;> simp [unscoped, functional?]

namespace CompoundSelector

theorem unscoped_append (xs ys : CompoundSelector) :
    unscoped (xs ++ ys : CompoundSelector) = unscoped xs ++ unscoped ys := by
  induction xs with
  | nil => rfl
  | cons s ss ih =>
    rw [List.cons_append, unscoped, unscoped, ih]
    split <;> rfl

/-- What tells nothing about namespaces tells the same of a compound without them. -/
theorem filterMap_unscoped {β : Type} {f : SimpleSelector → Option β} (hscope : ∀ n, f (.inNamespace n) = none)
    (hf : ∀ s, f s.unscoped = f s) (xs : CompoundSelector) : (unscoped xs).filterMap f = xs.filterMap f := by
  induction xs with
  | nil => rfl
  | cons s ss ih =>
    rw [unscoped]
    split
    · next hs =>
      obtain ⟨n, rfl⟩ := SimpleSelector.exists_eq_of_isScope hs
      rw [ih, List.filterMap_cons_none (hscope n)]
    · rw [List.filterMap_cons, List.filterMap_cons, hf, ih]

end CompoundSelector

theorem QualifiedName.unscoped_simples (q : QualifiedName) :
    CompoundSelector.unscoped q.simples = (q.localName.map SimpleSelector.localName).toList := by
  obtain ⟨scope, localName?⟩ := q
  have hscope : CompoundSelector.unscoped (if scope = .any then [] else [.inNamespace scope]) = [] := by
    split
    · rfl
    · rfl
  rw [simples, CompoundSelector.unscoped_append, hscope, List.append_nil]
  cases localName? <;> rfl

theorem Branch.toSelector_unscoped (p : Branch) : p.unscoped.toSelector = p.toSelector.unscoped := by
  obtain s | ⟨k, s⟩ := p
  · rfl
  · rfl

theorem Branch.toRelative_unscoped (p : Branch) : p.unscoped.toRelative = p.toRelative.unscoped := by
  obtain s | ⟨k, s⟩ := p
  · rfl
  · rfl

theorem Selector.unscopedAll_map_toSelector (ps : List Branch) :
    unscopedAll (ps.map Branch.toSelector) = (ps.map Branch.unscoped).map Branch.toSelector := by
  induction ps with
  | nil => rfl
  | cons p ps ih => rw [List.map_cons, unscopedAll, ih, List.map_cons, List.map_cons, p.toSelector_unscoped]

theorem RelativeSelector.unscopedAll_map_toRelative (ps : List Branch) :
    unscopedAll (ps.map Branch.toRelative) = (ps.map Branch.unscoped).map Branch.toRelative := by
  induction ps with
  | nil => rfl
  | cons p ps ih => rw [List.map_cons, unscopedAll, ih, List.map_cons, List.map_cons, p.toRelative_unscoped]

/-- What a pseudo-class makes of its branches is left with what is left of these. -/
theorem Logical.unscoped_ofBranches (op : Logical) (ps : List Branch) :
    (op.ofBranches ps).unscoped = op.ofBranches (ps.map Branch.unscoped) := by
  cases op with
  | relational => exact congrArg SimpleSelector.relational (RelativeSelector.unscopedAll_map_toRelative ps)
  | negation => exact congrArg SimpleSelector.negation (Selector.unscopedAll_map_toSelector ps)
  | matchesAny => exact congrArg SimpleSelector.matchesAny (Selector.unscopedAll_map_toSelector ps)
  | weightless => exact congrArg SimpleSelector.weightless (Selector.unscopedAll_map_toSelector ps)

/-! ### What stays the same -/

theorem ComplexSelector.simples_unscoped (tree : ComplexSelector) :
    tree.unscoped.simples = CompoundSelector.unscoped tree.simples := by
  fun_induction simples tree with
  | case1 simples => rfl
  | case2 left k right ih => rw [unscoped, simples, ih, CompoundSelector.unscoped_append]

theorem Selector.attributes_unscoped (s : Selector) : s.unscoped.attributes = s.attributes := by
  obtain ⟨tree, pseudoElement⟩ := s
  show tree.unscoped.simples.filterMap SimpleSelector.attribute? = _
  rw [tree.simples_unscoped, CompoundSelector.filterMap_unscoped (fun _ => rfl) SimpleSelector.attribute?_unscoped]
  rfl

theorem Selector.functionals_unscoped (s : Selector) : s.unscoped.functionals = s.functionals := by
  obtain ⟨tree, pseudoElement⟩ := s
  show tree.unscoped.simples.filterMap SimpleSelector.functional? = _
  rw [tree.simples_unscoped, CompoundSelector.filterMap_unscoped (fun _ => rfl) SimpleSelector.functional?_unscoped]
  rfl

mutual

theorem SimpleSelector.specificity_unscoped : ∀ s : SimpleSelector, s.unscoped.specificity = s.specificity
  | .negation branches | .matchesAny branches => Selector.maxSpecificity_unscoped branches
  | .relational branches => RelativeSelector.maxSpecificity_unscoped branches
  | .weightless _ | .localName _ | .inNamespace _ | .id _ | .className _ | .attribute _ | .pseudoClass _
  | .functional _ _ => rfl

/-- A condition on the namespace weighs nothing. -/
theorem CompoundSelector.specificity_unscoped : ∀ simples : List SimpleSelector,
    CompoundSelector.specificity (CompoundSelector.unscoped simples) = CompoundSelector.specificity simples
  | [] => rfl
  | s :: ss => by
    rw [CompoundSelector.unscoped]
    cases hs : s.isScope with
    | true =>
      obtain ⟨n, rfl⟩ := SimpleSelector.exists_eq_of_isScope hs
      rw [if_pos rfl, CompoundSelector.specificity_unscoped ss, CompoundSelector.specificity,
        SimpleSelector.specificity, Specificity.zero_add]
    | false =>
      rw [if_neg (by simp), CompoundSelector.specificity, CompoundSelector.specificity, s.specificity_unscoped,
        CompoundSelector.specificity_unscoped ss]

theorem ComplexSelector.specificity_unscoped : ∀ tree : ComplexSelector,
    tree.unscoped.specificity = tree.specificity
  | .compound simples => CompoundSelector.specificity_unscoped simples
  | .combined left _ right => by
    rw [ComplexSelector.unscoped, ComplexSelector.specificity, ComplexSelector.specificity,
      left.specificity_unscoped, CompoundSelector.specificity_unscoped right]

theorem Selector.specificity_unscoped : ∀ s : Selector, s.unscoped.specificity = s.specificity
  | ⟨tree, pseudoElement⟩ => by
    rw [Selector.unscoped, Selector.specificity, Selector.specificity, tree.specificity_unscoped]

theorem Selector.maxSpecificity_unscoped : ∀ branches : List Selector,
    Selector.maxSpecificity (Selector.unscopedAll branches) = Selector.maxSpecificity branches
  | [] => rfl
  | s :: ss => by
    rw [Selector.unscopedAll, Selector.maxSpecificity, Selector.maxSpecificity, s.specificity_unscoped,
      Selector.maxSpecificity_unscoped ss]

theorem RelativeSelector.maxSpecificity_unscoped : ∀ branches : List RelativeSelector,
    RelativeSelector.maxSpecificity (RelativeSelector.unscopedAll branches) = RelativeSelector.maxSpecificity branches
  | [] => rfl
  | ⟨k, s⟩ :: rs => by
    rw [RelativeSelector.unscopedAll, RelativeSelector.maxSpecificity, RelativeSelector.maxSpecificity,
      RelativeSelector.maxSpecificity_unscoped rs, RelativeSelector.unscoped, RelativeSelector.specificity,
      RelativeSelector.specificity, s.specificity_unscoped]

end

mutual

theorem SimpleSelector.within_unscoped : ∀ s : SimpleSelector, s.unscoped.within = s.within.map Selector.unscoped
  | .negation branches | .matchesAny branches | .weightless branches => Selector.allWithin_unscoped branches
  | .relational branches => RelativeSelector.allWithin_unscoped branches
  | .localName _ | .inNamespace _ | .id _ | .className _ | .attribute _ | .pseudoClass _ | .functional _ _ => rfl

theorem CompoundSelector.within_unscoped : ∀ simples : List SimpleSelector,
    CompoundSelector.within (CompoundSelector.unscoped simples) =
      (CompoundSelector.within simples).map Selector.unscoped
  | [] => rfl
  | s :: ss => by
    rw [CompoundSelector.unscoped, CompoundSelector.within, List.map_append, ← s.within_unscoped,
      ← CompoundSelector.within_unscoped ss]
    cases hs : s.isScope with
    | true =>
      obtain ⟨n, rfl⟩ := SimpleSelector.exists_eq_of_isScope hs
      rfl
    | false => rfl

theorem ComplexSelector.within_unscoped : ∀ tree : ComplexSelector,
    tree.unscoped.within = tree.within.map Selector.unscoped
  | .compound simples => CompoundSelector.within_unscoped simples
  | .combined left _ right => by
    rw [ComplexSelector.unscoped, ComplexSelector.within, ComplexSelector.within, List.map_append,
      left.within_unscoped, CompoundSelector.within_unscoped right]

theorem Selector.within_unscoped : ∀ s : Selector, s.unscoped.within = s.within.map Selector.unscoped
  | ⟨tree, pseudoElement⟩ => by
    rw [Selector.unscoped, Selector.within, Selector.within, List.map_cons, tree.within_unscoped, Selector.unscoped]

theorem Selector.allWithin_unscoped : ∀ branches : List Selector,
    Selector.allWithin (Selector.unscopedAll branches) = (Selector.allWithin branches).map Selector.unscoped
  | [] => rfl
  | s :: ss => by
    rw [Selector.unscopedAll, Selector.allWithin, Selector.allWithin, List.map_append, s.within_unscoped,
      Selector.allWithin_unscoped ss]

theorem RelativeSelector.allWithin_unscoped : ∀ branches : List RelativeSelector,
    RelativeSelector.allWithin (RelativeSelector.unscopedAll branches) =
      (RelativeSelector.allWithin branches).map Selector.unscoped
  | [] => rfl
  | ⟨k, s⟩ :: rs => by
    rw [RelativeSelector.unscopedAll, RelativeSelector.allWithin, RelativeSelector.allWithin, List.map_append,
      RelativeSelector.allWithin_unscoped rs, RelativeSelector.unscoped, RelativeSelector.within,
      RelativeSelector.within, s.within_unscoped]

end
end CssSelector
