import CssSelector.Proofs.Printing.Scanning
import CssSelector.Selector.Simple

/-!
Selectors that are read back from their texts. A text writes names as they are and has no place for what the grammar
would not have read: a name that needs escapes, a compound with its simple selectors in another order, a prefix, since
no text declares one, or a pseudo-element inside a pseudo-class.
-/

namespace CssSelector

structure LocalName.Printable (n : LocalName) : Prop where
  plain : Name.Plain n.name
  lower : n.lower = asciiLower n.name

structure AttributeSelector.Printable (a : AttributeSelector) : Prop where
  scope : a.scope = .any ∨ a.scope = .empty
  name : a.name.Printable
  operator : a.operator.isSome = a.value.isSome
  value : ∀ value, a.value = some value → ∀ c ∈ value.toList, CodePoint.isLost c = false

/-- What a compound begins with: a local name, if there is one, and then no namespace, if that is said. -/
def CompoundSelector.ofType (name? : Option LocalName) (isScoped : Bool) : CompoundSelector :=
  (name?.map SimpleSelector.localName).toList ++ (if isScoped then [.inNamespace .empty] else [])

mutual

/-- Simple selectors behind the type, with pseudo-classes at most `n` deep. -/
inductive SimpleSelector.Printable : Nat → SimpleSelector → Prop
  | id {n : Nat} {name : String} (hname : Name.Plain name) : SimpleSelector.Printable n (.id name)
  | className {n : Nat} {name : String} (hname : Name.Plain name) : SimpleSelector.Printable n (.className name)
  | brackets {n : Nat} {test : AttributeSelector} (htest : test.Printable) :
      SimpleSelector.Printable n (.attribute test)
  | pseudoClass {n : Nat} {name : String} (hname : Name.Plain name) (hlower : asciiLower name = name)
      (hlegacy : name ∉ PseudoElement.legacy) : SimpleSelector.Printable n (.pseudoClass name)
  | negation {n : Nat} {branches : List Selector} (hne : branches ≠ [])
      (hbranches : ∀ s ∈ branches, ComplexSelector.Printable n s.tree)
      (hpseudo : ∀ s ∈ branches, s.pseudoElement = none) : SimpleSelector.Printable (n + 1) (.negation branches)
  | relational {n : Nat} {branches : List RelativeSelector}
      (hbranches : ∀ r ∈ branches, ComplexSelector.Printable n r.selector.tree)
      (hpseudo : ∀ r ∈ branches, r.selector.pseudoElement = none) :
      SimpleSelector.Printable (n + 1) (.relational branches)
  | matchesAny {n : Nat} {branches : List Selector}
      (hbranches : ∀ s ∈ branches, ComplexSelector.Printable n s.tree)
      (hpseudo : ∀ s ∈ branches, s.pseudoElement = none) : SimpleSelector.Printable (n + 1) (.matchesAny branches)
  | weightless {n : Nat} {branches : List Selector}
      (hbranches : ∀ s ∈ branches, ComplexSelector.Printable n s.tree)
      (hpseudo : ∀ s ∈ branches, s.pseudoElement = none) : SimpleSelector.Printable (n + 1) (.weightless branches)

inductive CompoundSelector.Printable : Nat → CompoundSelector → Prop
  | intro {n : Nat} {name? : Option LocalName} {simples : List SimpleSelector} (isScoped : Bool)
      (hname : ∀ name, name? = some name → name.Printable)
      (hsimples : ∀ s ∈ simples, SimpleSelector.Printable n s) :
      CompoundSelector.Printable n (CompoundSelector.ofType name? isScoped ++ simples)

inductive ComplexSelector.Printable : Nat → ComplexSelector → Prop
  | compound {n : Nat} {simples : CompoundSelector} (h : CompoundSelector.Printable n simples) :
      ComplexSelector.Printable n (.compound simples)
  | combined {n : Nat} {left : ComplexSelector} {k : Combinator} {right : CompoundSelector}
      (hleft : ComplexSelector.Printable n left) (hright : CompoundSelector.Printable n right) :
      ComplexSelector.Printable n (.combined left k right)

end

/-- A selector of which a list is read back, with pseudo-classes at most `n` deep. -/
structure Selector.Printable (n : Nat) (s : Selector) : Prop where
  tree : s.tree.Printable n
  pseudoElement : ∀ name, s.pseudoElement = some name → name ∈ PseudoElement.supported

end CssSelector
