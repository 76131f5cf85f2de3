import CssSelector.Selector.Basic

/-!
The specificity of selectors: how many ids, classes and their like, and types and pseudo-elements are asked for. A list
of branches weighs as much as its heaviest one, and nothing if it is empty.
-/

namespace CssSelector

/-- Three counts, compared from the first to the last. -/
structure Specificity where
  ids : Nat
  classes : Nat
  types : Nat
deriving DecidableEq, Repr

namespace Specificity

def zero : Specificity := ⟨0, 0, 0⟩

def add (a b : Specificity) : Specificity := ⟨a.ids + b.ids, a.classes + b.classes, a.types + b.types⟩

instance : Add Specificity := ⟨add⟩

def order (a b : Specificity) : Ordering :=
  (compare a.ids b.ids).then ((compare a.classes b.classes).then (compare a.types b.types))

/-- The heavier of two. -/
def max (a b : Specificity) : Specificity := if a.order b = .lt then b else a

def text (s : Specificity) : String :=
  "(" ++ Nat.repr s.ids ++ ", " ++ Nat.repr s.classes ++ ", " ++ Nat.repr s.types ++ ")"

end Specificity

mutual

def SimpleSelector.specificity : SimpleSelector → Specificity
  | .localName _ => ⟨0, 0, 1⟩
  | .inNamespace _ => .zero
  | .id _ => ⟨1, 0, 0⟩
  | .className _ => ⟨0, 1, 0⟩
  | .attribute _ => ⟨0, 1, 0⟩
  | .pseudoClass _ => ⟨0, 1, 0⟩
  | .functional _ _ => ⟨0, 1, 0⟩
  | .negation branches => Selector.maxSpecificity branches
  | .relational branches => RelativeSelector.maxSpecificity branches
  | .matchesAny branches => Selector.maxSpecificity branches
  | .weightless _ => .zero

/-- The sum over all simple selectors of a compound. -/
def CompoundSelector.specificity : List SimpleSelector → Specificity
  | [] => .zero
  | s :: ss => s.specificity + CompoundSelector.specificity ss

def ComplexSelector.specificity : ComplexSelector → Specificity
  | .compound simples => CompoundSelector.specificity simples
  | .combined left _ right => left.specificity + CompoundSelector.specificity right

def Selector.specificity : Selector → Specificity
  | ⟨tree, pseudoElement⟩ => tree.specificity + (if pseudoElement.isSome then ⟨0, 0, 1⟩ else .zero)

def RelativeSelector.specificity : RelativeSelector → Specificity
  | ⟨_, selector⟩ => selector.specificity

/-- The specificity of the heaviest selector of a list. -/
def Selector.maxSpecificity : List Selector → Specificity
  | [] => .zero
  | s :: ss => s.specificity.max (Selector.maxSpecificity ss)

/-- The specificity of the heaviest relative selector of a list. -/
def RelativeSelector.maxSpecificity : List RelativeSelector → Specificity
  | [] => .zero
  | r :: rs => r.specificity.max (RelativeSelector.maxSpecificity rs)

end

namespace Branch

def specificity (p : Branch) : Specificity := p.toSelector.specificity

/-- Selectors from the lightest to the heaviest; equally heavy ones keep their order. The selectors are found in
whatever else is to be kept with them. -/
def rank {α : Type} (selector : α → Branch) (xs : List α) : List α :=
  xs.mergeSort fun a b => (selector a).specificity.order (selector b).specificity != .gt

end Branch
end CssSelector
