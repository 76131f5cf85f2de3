import CssSelector.ComponentValue.Basic
import CssSelector.Namespace

/-!
Selectors. A compound is a list of simple selectors that all hold of one element, a complex selector chains compounds
with combinators and grows to the right, and a selector may end in a pseudo-element. Simple selectors hold lists of
selectors in turn, so the types are defined together.
-/

namespace CssSelector

/-- The name of an element or attribute, as written and in lower case. -/
structure LocalName where
  name : String
  lower : String
deriving DecidableEq, Repr

def LocalName.ofString (s : String) : LocalName := ⟨s, asciiLower s⟩

/-- How the element matched on the left is related to the one on the right. -/
inductive Combinator where
  | descendant
  | child
  | nextSibling
  | subsequentSibling
deriving DecidableEq, Repr

namespace Combinator

/-- The combinator that a character writes. -/
def ofChar : Char → Option Combinator
  | '>' => some child
  | '+' => some nextSibling
  | '~' => some subsequentSibling
  | _ => none

/-- The combinator that a value writes. -/
def ofValue : ComponentValue → Option Combinator
  | .token ⟨.delim c, _⟩ => ofChar c
  | _ => none

def text : Combinator → String
  | descendant => " "
  | child => ">"
  | nextSibling => "+"
  | subsequentSibling => "~"

end Combinator

/-- How an attribute is compared with a value. -/
inductive AttributeOperator where
  | equals
  | includes
  | dash
  | begins
  | ends
  | contains
deriving DecidableEq, Repr

namespace AttributeOperator

/-- The operator that a value writes. -/
def ofValue : ComponentValue → Option AttributeOperator
  | .token ⟨.delim '=', _⟩ => some equals
  | .token ⟨.includeMatch, _⟩ => some includes
  | .token ⟨.dashMatch, _⟩ => some dash
  | .token ⟨.prefixMatch, _⟩ => some begins
  | .token ⟨.suffixMatch, _⟩ => some ends
  | .token ⟨.substringMatch, _⟩ => some contains
  | _ => none

def text : AttributeOperator → String
  | equals => "="
  | includes => "~="
  | dash => "|="
  | begins => "^="
  | ends => "$="
  | contains => "*="

end AttributeOperator

/-- A condition on an attribute: that it is there, or how it compares with a value. -/
structure AttributeSelector where
  scope : Namespace
  name : LocalName
  operator : Option AttributeOperator
  value : Option String
deriving DecidableEq, Repr

/-- The pseudo-classes whose arguments are selectors. -/
inductive Logical where
  | negation
  | relational
  | matchesAny
  | weightless
deriving DecidableEq, Repr

namespace Logical

def name : Logical → String
  | negation => "not"
  | relational => "has"
  | matchesAny => "is"
  | weightless => "where"

/-- The pseudo-class of a name in lower case. -/
def ofName : String → Option Logical
  | "not" => some negation
  | "has" => some relational
  | "is" => some matchesAny
  | "where" => some weightless
  | _ => none

end Logical

mutual

/-- One condition on an element. -/
inductive SimpleSelector where
  | localName (name : LocalName)
  | inNamespace (scope : Namespace)
  | id (name : String)
  | className (name : String)
  | attribute (test : AttributeSelector)
  | pseudoClass (name : String)
  /-- A pseudo-class with arguments that are not selectors. -/
  | functional (name : String) (arguments : List ComponentValue)
  /-- None of the branches holds. -/
  | negation (branches : List Selector)
  /-- One of the branches holds of a related element. -/
  | relational (branches : List RelativeSelector)
  /-- One of the branches holds. -/
  | matchesAny (branches : List Selector)
  /-- One of the branches holds, and that weighs nothing. -/
  | weightless (branches : List Selector)

/-- Compounds chained by combinators. -/
inductive ComplexSelector where
  | compound (simples : List SimpleSelector)
  | combined (left : ComplexSelector) (combinator : Combinator) (right : List SimpleSelector)

/-- A complex selector and the pseudo-element that it ends in, in lower case. -/
structure Selector where
  tree : ComplexSelector
  pseudoElement : Option String

/-- A selector that is related to an element by a combinator in front of it. -/
structure RelativeSelector where
  combinator : Combinator
  selector : Selector

end

/-- Simple selectors that all apply to one element; without any, every element will do. -/
abbrev CompoundSelector := List SimpleSelector

/-- The compound that describes the element selected. -/
def ComplexSelector.subject : ComplexSelector → CompoundSelector
  | compound simples => simples
  | combined _ _ right => right

def RelativeSelector.pseudoElement (r : RelativeSelector) : Option String := r.selector.pseudoElement

/-- What one branch of a selector list is read as. -/
inductive Branch where
  | absolute (s : Selector)
  | relative (r : RelativeSelector)

namespace Branch

/-- The selector without the combinator in front of it. -/
def toSelector : Branch → Selector
  | absolute s => s
  | relative r => r.selector

/-- The selector as a relative one; an absolute selector looks for descendants. -/
def toRelative : Branch → RelativeSelector
  | absolute s => ⟨.descendant, s⟩
  | relative r => r

def pseudoElement (p : Branch) : Option String := p.toSelector.pseudoElement

end Branch
end CssSelector
