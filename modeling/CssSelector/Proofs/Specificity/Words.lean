import CssSelector.Proofs.Specificity.Expansion
import Mathlib.Algebra.Group.Nat.Defs
import Mathlib.Logic.Relation

/-!
Specificities in words of 32 bits. A selector that asks for less than a word can count, with all its branches, is
weighed without an overflow, and so is everything inside it. Main statement: `weigh?_eq_some`.
-/

namespace CssSelector

/-! ### Words -/

namespace Specificity

/-- All three counts together. -/
def total (w : Specificity) : Nat := w.ids + w.classes + w.types

/-- The sum, if each of its counts fits into a word. -/
def add? (a b : Specificity) : Option Specificity :=
  if (a + b).ids < 2 ^ 32 ∧ (a + b).classes < 2 ^ 32 ∧ (a + b).types < 2 ^ 32 then some (a + b) else none

@[simp] theorem total_zero : zero.total = 0 := rfl

@[simp] theorem total_add (a b : Specificity) : (a + b).total = a.total + b.total := by
  show a.ids + b.ids + (a.classes + b.classes) + (a.types + b.types) = _
  unfold total
  omega

theorem total_max_le (a b : Specificity) : (a.max b).total ≤ a.total + b.total := by
  rcases max_eq a b with h | h <;> rw [h] <;> omega

theorem zero_add (a : Specificity) : zero + a = a := by
  show (⟨0 + a.ids, 0 + a.classes, 0 + a.types⟩ : Specificity) = a
  simp only [Nat.zero_add]

theorem add_assoc (a b c : Specificity) : a + b + c = a + (b + c) := by
  show (⟨a.ids + b.ids + c.ids, a.classes + b.classes + c.classes, a.types + b.types + c.types⟩ : Specificity) =
    ⟨a.ids + (b.ids + c.ids), a.classes + (b.classes + c.classes), a.types + (b.types + c.types)⟩
  simp only [Nat.add_assoc]

/-- A sum fits if all its counts together do. -/
theorem add?_eq_some {a b : Specificity} (h : a.total + b.total < 2 ^ 32) : a.add? b = some (a + b) := by
  rw [← total_add, total] at h
  exact if_pos ⟨by omega, by omega, by omega⟩

end Specificity

/-! ### Weighing in words -/

mutual

/-- The specificity, if no addition on the way to it overflows. -/
def SimpleSelector.weigh? : SimpleSelector → Option Specificity
  | .localName _ => some ⟨0, 0, 1⟩
  | .inNamespace _ => some .zero
  | .id _ => some ⟨1, 0, 0⟩
  | .className _ => some ⟨0, 1, 0⟩
  | .attribute _ => some ⟨0, 1, 0⟩
  | .pseudoClass _ => some ⟨0, 1, 0⟩
  | .functional _ _ => some ⟨0, 1, 0⟩
  | .negation branches => Selector.weighMax? branches
  | .relational branches => RelativeSelector.weighMax? branches
  | .matchesAny branches => Selector.weighMax? branches
  | .weightless _ => some .zero

/-- What simple selectors weigh is added to `w`, one after the other. -/
def CompoundSelector.weighOnto? : List SimpleSelector → Specificity → Option Specificity
  | [], w => some w
  | s :: ss, w => do CompoundSelector.weighOnto? ss (← w.add? (← s.weigh?))

def ComplexSelector.weigh? : ComplexSelector → Option Specificity
  | .compound simples => CompoundSelector.weighOnto? simples .zero
  | .combined left _ right => do (← left.weigh?).add? (← CompoundSelector.weighOnto? right .zero)

def Selector.weigh? : Selector → Option Specificity
  | ⟨tree, none⟩ => tree.weigh?
  | ⟨tree, some _⟩ => do (← tree.weigh?).add? ⟨0, 0, 1⟩

def RelativeSelector.weigh? : RelativeSelector → Option Specificity
  | ⟨_, selector⟩ => selector.weigh?

def Selector.weighMax? : List Selector → Option Specificity
  | [] => some .zero
  | s :: ss => do return (← s.weigh?).max (← Selector.weighMax? ss)

def RelativeSelector.weighMax? : List RelativeSelector → Option Specificity
  | [] => some .zero
  | r :: rs => do return (← r.weigh?).max (← RelativeSelector.weighMax? rs)

end

def CompoundSelector.weigh? (simples : CompoundSelector) : Option Specificity := weighOnto? simples .zero

/-! ### Conditions -/

mutual

/-- So many things are asked for, in all branches and also where they weigh nothing. -/
def SimpleSelector.conditions : SimpleSelector → Nat
  | .inNamespace _ => 0
  | .localName _ | .id _ | .className _ | .attribute _ | .pseudoClass _ | .functional _ _ => 1
  | .negation branches => Selector.allConditions branches
  | .relational branches => RelativeSelector.allConditions branches
  | .matchesAny branches => Selector.allConditions branches
  | .weightless branches => Selector.allConditions branches

def CompoundSelector.conditions : List SimpleSelector → Nat
  | [] => 0
  | s :: ss => s.conditions + CompoundSelector.conditions ss

def ComplexSelector.conditions : ComplexSelector → Nat
  | .compound simples => CompoundSelector.conditions simples
  | .combined left _ right => left.conditions + CompoundSelector.conditions right

def Selector.conditions : Selector → Nat
  | ⟨tree, pseudoElement⟩ => tree.conditions + (if pseudoElement.isSome then 1 else 0)

def RelativeSelector.conditions : RelativeSelector → Nat
  | ⟨_, selector⟩ => selector.conditions

def Selector.allConditions : List Selector → Nat
  | [] => 0
  | s :: ss => s.conditions + Selector.allConditions ss

def RelativeSelector.allConditions : List RelativeSelector → Nat
  | [] => 0
  | r :: rs => r.conditions + RelativeSelector.allConditions rs

end

def Branch.conditions (p : Branch) : Nat := p.toSelector.conditions

/-! ### What weighs is a condition -/

mutual

theorem SimpleSelector.total_le : ∀ s : SimpleSelector, s.specificity.total ≤ s.conditions
  | .negation branches | .matchesAny branches => Selector.total_max_le branches
  | .relational branches => RelativeSelector.total_max_le branches
  | .weightless _ => Nat.zero_le _
  | .localName _ | .inNamespace _ | .id _ | .className _ | .attribute _ | .pseudoClass _ | .functional _ _ =>
    Nat.le_refl _

theorem CompoundSelector.total_le : ∀ simples : List SimpleSelector,
    (CompoundSelector.specificity simples).total ≤ CompoundSelector.conditions simples
  | [] => Nat.le_refl 0
  | s :: ss => by
    rw [CompoundSelector.specificity, Specificity.total_add, CompoundSelector.conditions]
    exact Nat.add_le_add s.total_le (CompoundSelector.total_le ss)

theorem ComplexSelector.total_le : ∀ tree : ComplexSelector, tree.specificity.total ≤ tree.conditions
  | .compound simples => CompoundSelector.total_le simples
  | .combined left _ right => by
    rw [ComplexSelector.specificity, Specificity.total_add, ComplexSelector.conditions]
    exact Nat.add_le_add left.total_le (CompoundSelector.total_le right)

theorem Selector.total_le : ∀ s : Selector, s.specificity.total ≤ s.conditions
  | ⟨tree, none⟩ => tree.total_le
  | ⟨tree, some _⟩ => by
    rw [Selector.specificity, Specificity.total_add]
    exact Nat.add_le_add tree.total_le (Nat.le_refl 1)

theorem Selector.total_max_le : ∀ branches : List Selector,
    (Selector.maxSpecificity branches).total ≤ Selector.allConditions branches
  | [] => Nat.le_refl 0
  | s :: ss => by
    rw [Selector.maxSpecificity, Selector.allConditions]
    exact Nat.le_trans (Specificity.total_max_le _ _) (Nat.add_le_add s.total_le (Selector.total_max_le ss))

theorem RelativeSelector.total_max_le : ∀ branches : List RelativeSelector,
    (RelativeSelector.maxSpecificity branches).total ≤ RelativeSelector.allConditions branches
  | [] => Nat.le_refl 0
  | ⟨_, s⟩ :: rs => by
    rw [RelativeSelector.maxSpecificity, RelativeSelector.allConditions]
    exact Nat.le_trans (Specificity.total_max_le _ _) (Nat.add_le_add s.total_le (RelativeSelector.total_max_le rs))

end

/-! ### Few conditions are weighed in words -/

mutual

theorem SimpleSelector.weigh?_eq : ∀ s : SimpleSelector, s.conditions < 2 ^ 32 → s.weigh? = some s.specificity
  | .negation branches, h | .matchesAny branches, h => Selector.weighMax?_eq branches h
  | .relational branches, h => RelativeSelector.weighMax?_eq branches h
  | .weightless _, _ | .localName _, _ | .inNamespace _, _ | .id _, _ | .className _, _ | .attribute _, _
  | .pseudoClass _, _ | .functional _ _, _ => rfl

theorem CompoundSelector.weighOnto?_eq : ∀ (simples : List SimpleSelector) (w : Specificity),
    w.total + CompoundSelector.conditions simples < 2 ^ 32 →
      CompoundSelector.weighOnto? simples w = some (w + CompoundSelector.specificity simples)
  | [], w, _ => rfl
  | s :: ss, w, h => by
    rw [CompoundSelector.conditions] at h
    have htotal := s.total_le
    have hsum : w.add? s.specificity = some (w + s.specificity) := Specificity.add?_eq_some (by omega)
    have hothers : (w + s.specificity).total + CompoundSelector.conditions ss < 2 ^ 32 := by
      rw [Specificity.total_add]
      omega
    rw [CompoundSelector.weighOnto?, s.weigh?_eq (by omega), CompoundSelector.specificity, ← Specificity.add_assoc]
    show (w.add? s.specificity).bind (CompoundSelector.weighOnto? ss) = _
    rw [hsum]
    exact CompoundSelector.weighOnto?_eq ss _ hothers

theorem ComplexSelector.weigh?_eq : ∀ tree : ComplexSelector, tree.conditions < 2 ^ 32 →
    tree.weigh? = some tree.specificity
  | .compound simples, h => by
    rw [ComplexSelector.weigh?, CompoundSelector.weighOnto?_eq simples .zero, Specificity.zero_add]
    · rfl
    · rwa [Specificity.total_zero, Nat.zero_add]
  | .combined left k right, h => by
    rw [ComplexSelector.conditions] at h
    have hleft := left.total_le
    have hright := CompoundSelector.total_le right
    have honto : CompoundSelector.weighOnto? right .zero = some (CompoundSelector.specificity right) := by
      rw [CompoundSelector.weighOnto?_eq right .zero, Specificity.zero_add]
      rw [Specificity.total_zero]
      omega
    rw [ComplexSelector.weigh?, left.weigh?_eq (by omega), honto]
    exact Specificity.add?_eq_some (by omega)

theorem Selector.weigh?_eq : ∀ s : Selector, s.conditions < 2 ^ 32 → s.weigh? = some s.specificity
  | ⟨tree, none⟩, h => tree.weigh?_eq h
  | ⟨tree, some name⟩, h => by
    have hconditions : tree.conditions + 1 < 2 ^ 32 := h
    have htree := tree.total_le
    rw [Selector.weigh?, tree.weigh?_eq (by omega)]
    refine Specificity.add?_eq_some ?_
    show tree.specificity.total + 1 < 2 ^ 32
    omega

theorem Selector.weighMax?_eq : ∀ branches : List Selector, Selector.allConditions branches < 2 ^ 32 →
    Selector.weighMax? branches = some (Selector.maxSpecificity branches)
  | [], _ => rfl
  | s :: ss, h => by
    rw [Selector.allConditions] at h
    rw [Selector.weighMax?, s.weigh?_eq (by omega), Selector.weighMax?_eq ss (by omega)]
    rfl

theorem RelativeSelector.weighMax?_eq : ∀ branches : List RelativeSelector,
    RelativeSelector.allConditions branches < 2 ^ 32 →
      RelativeSelector.weighMax? branches = some (RelativeSelector.maxSpecificity branches)
  | [], _ => rfl
  | ⟨k, s⟩ :: rs, h => by
    rw [RelativeSelector.allConditions, RelativeSelector.conditions] at h
    rw [RelativeSelector.weighMax?, RelativeSelector.weigh?, s.weigh?_eq (by omega),
      RelativeSelector.weighMax?_eq rs (by omega)]
    rfl

end

/-! ### Everything inside a selector -/

/-- Whatever has a specificity of its own. -/
inductive Weighable where
  | simple (s : SimpleSelector)
  | compound (simples : CompoundSelector)
  | complex (tree : ComplexSelector)
  | selector (s : Selector)
  | relative (r : RelativeSelector)

namespace Weighable

def specificity : Weighable → Specificity
  | simple s => s.specificity
  | compound simples => CompoundSelector.specificity simples
  | complex tree => tree.specificity
  | selector s => s.specificity
  | relative r => r.specificity

def weigh? : Weighable → Option Specificity
  | simple s => s.weigh?
  | compound simples => CompoundSelector.weigh? simples
  | complex tree => tree.weigh?
  | selector s => s.weigh?
  | relative r => r.weigh?

def conditions : Weighable → Nat
  | simple s => s.conditions
  | compound simples => CompoundSelector.conditions simples
  | complex tree => tree.conditions
  | selector s => s.conditions
  | relative r => r.conditions

/-- The first is one of the parts that the second is made of. -/
inductive Part : Weighable → Weighable → Prop
  | tree (s : Selector) : Part (complex s.tree) (selector s)
  | selector (r : RelativeSelector) : Part (.selector r.selector) (relative r)
  | compound (simples : CompoundSelector) : Part (.compound simples) (complex (.compound simples))
  | left (left : ComplexSelector) (k : Combinator) (right : CompoundSelector) :
      Part (complex left) (complex (.combined left k right))
  | right (left : ComplexSelector) (k : Combinator) (right : CompoundSelector) :
      Part (.compound right) (complex (.combined left k right))
  | simple {s : SimpleSelector} {simples : CompoundSelector} (hs : s ∈ simples) : Part (.simple s) (.compound simples)
  | negation {s : Selector} {branches : List Selector} (hs : s ∈ branches) :
      Part (.selector s) (.simple (.negation branches))
  | relational {r : RelativeSelector} {branches : List RelativeSelector} (hr : r ∈ branches) :
      Part (relative r) (.simple (.relational branches))
  | matchesAny {s : Selector} {branches : List Selector} (hs : s ∈ branches) :
      Part (.selector s) (.simple (.matchesAny branches))
  | weightless {s : Selector} {branches : List Selector} (hs : s ∈ branches) :
      Part (.selector s) (.simple (.weightless branches))

/-- The first is the second or lies somewhere inside it. -/
def Inside : Weighable → Weighable → Prop := Relation.ReflTransGen Part

end Weighable

theorem CompoundSelector.conditions_le_of_mem {s : SimpleSelector} {simples : List SimpleSelector} (h : s ∈ simples) :
    s.conditions ≤ conditions simples := by
  induction h with
  | head => exact Nat.le_add_right _ _
  | tail _ _ ih => exact Nat.le_trans ih (Nat.le_add_left _ _)

theorem Selector.conditions_le_of_mem {s : Selector} {branches : List Selector} (h : s ∈ branches) :
    s.conditions ≤ allConditions branches := by
  induction h with
  | head => exact Nat.le_add_right _ _
  | tail _ _ ih => exact Nat.le_trans ih (Nat.le_add_left _ _)

theorem RelativeSelector.conditions_le_of_mem {r : RelativeSelector} {branches : List RelativeSelector}
    (h : r ∈ branches) : r.conditions ≤ allConditions branches := by
  induction h with
  | head => exact Nat.le_add_right _ _
  | tail _ _ ih => exact Nat.le_trans ih (Nat.le_add_left _ _)

namespace Weighable

theorem Part.conditions_le {x y : Weighable} (h : Part x y) : x.conditions ≤ y.conditions := by
  cases h with
  | tree s =>
    obtain ⟨tree, pseudoElement⟩ := s
    exact Nat.le_add_right _ _
  | selector r =>
    obtain ⟨k, s⟩ := r
    exact Nat.le_refl _
  | compound => exact Nat.le_refl _
  | left => exact Nat.le_add_right _ _
  | right => exact Nat.le_add_left _ _
  | simple hs => exact CompoundSelector.conditions_le_of_mem hs
  | relational hr => exact RelativeSelector.conditions_le_of_mem hr
  | negation hs | matchesAny hs | weightless hs => exact Selector.conditions_le_of_mem hs

theorem Inside.conditions_le {x y : Weighable} (h : x.Inside y) : x.conditions ≤ y.conditions := by
  induction h with
  | refl => exact Nat.le_refl _
  | tail _ hpart ih => exact Nat.le_trans ih hpart.conditions_le

/-- **What asks for less than a word can count is weighed without an overflow.** -/
theorem weigh?_eq_some (x : Weighable) (h : x.conditions < 2 ^ 32) : x.weigh? = some x.specificity := by
  cases x with
  | simple s => exact s.weigh?_eq h
  | compound simples =>
    rw [weigh?, CompoundSelector.weigh?, CompoundSelector.weighOnto?_eq simples .zero, Specificity.zero_add]
    · rfl
    · rwa [Specificity.total_zero, Nat.zero_add]
  | complex tree => exact tree.weigh?_eq h
  | selector s => exact s.weigh?_eq h
  | relative r =>
    obtain ⟨k, s⟩ := r
    exact s.weigh?_eq h

end Weighable
end CssSelector
