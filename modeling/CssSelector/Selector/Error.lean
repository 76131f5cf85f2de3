import CssSelector.ComponentValue.Printer
import CssSelector.Selector.Basic

/-!
What can be wrong with a selector. An error names the value at which reading stopped, if any was left, and says in words
what was expected there. An escaping error is not contained by the list it occurs in: a list inside a pseudo-class fails
with it even where other errors only cost a branch.
-/

namespace CssSelector

inductive ErrorKind where
  /-- A value that cannot stand at this place of a list. -/
  | unexpectedToken
  /-- Nothing that a compound can begin with. -/
  | expectedCompound
  /-- A point without a name behind it. -/
  | expectedClassName
  /-- Two colons without a name behind them. -/
  | expectedPseudoElementName
  | unsupportedPseudoElement
  | expectedAttributeName
  | expectedAttributeOperator
  | expectedAttributeValue
  /-- Something behind a complete attribute selector. -/
  | expectedClosingBracket
  /-- A prefix that is not declared. -/
  | undefinedPrefix
  /-- A prefix without a name behind it. -/
  | expectedLocalName
  | nestingTooDeep
deriving DecidableEq, Repr

structure SelectorError where
  kind : ErrorKind
  /-- The value at which reading stopped; none at the end of a list. -/
  value : Option ComponentValue
  message : String
  escaping : Bool

namespace SelectorError

/-- An error as it arises. Only nesting that is too deep escapes from the beginning. -/
def new (kind : ErrorKind) (value : Option ComponentValue) (message : String) : SelectorError :=
  { kind, value, message, escaping := kind == .nestingTooDeep }

/-- The same error, come out of a negation: it escapes from then on. -/
def fromNegation (e : SelectorError) : SelectorError := { e with escaping := true }

def location (e : SelectorError) : Option Location := e.value.map ComponentValue.location

/-- Equality, with values compared as component values are. -/
def equal (a b : SelectorError) : Bool :=
  a.kind == b.kind && a.message == b.message && a.escaping == b.escaping &&
    (match a.value, b.value with
      | none, none => true
      | some v, some w => v.equal w
      | _, _ => false)

/-! ### Wording -/

/-- The text of the next value, if there is one. -/
def describe (next : Option ComponentValue) : String := (next.map ComponentValue.text).getD "EOF"

/-- The kind of the next value, if there is one. -/
def label (next : Option ComponentValue) : String := (next.map ComponentValue.label).getD "EOF"

def expectedCompound (next : Option ComponentValue) : SelectorError :=
  new .expectedCompound next ("expected a compound selector, got " ++ label next)

def expectedClassName (next : Option ComponentValue) : SelectorError :=
  new .expectedClassName next ("Expected a class name, got " ++ describe next)

def expectedPseudoElementName (next : Option ComponentValue) : SelectorError :=
  new .expectedPseudoElementName next ("Expected a pseudo-element name, got " ++ describe next)

def unsupportedPseudoElement (v : ComponentValue) (name : String) : SelectorError :=
  new .unsupportedPseudoElement (some v) ("Expected a supported pseudo-element, got " ++ name)

/-- Nothing that may follow a colon. -/
def unexpectedAfterColon (next : Option ComponentValue) : SelectorError :=
  new .unexpectedToken next ("unexpected " ++ describe next ++ " token.")

/-- Something other than a comma behind a complete selector. -/
def unexpectedAfterSelector (v : ComponentValue) : SelectorError :=
  new .unexpectedToken (some v) ("unexpected " ++ v.label ++ " token.")

def expectedAttributeName (next : Option ComponentValue) : SelectorError :=
  new .expectedAttributeName next ("expected attribute name, got " ++ describe next)

def expectedAttributeOperator (v : ComponentValue) : SelectorError :=
  new .expectedAttributeOperator (some v) ("expected attribute selector operator, got " ++ v.text)

def expectedAttributeValue (next : Option ComponentValue) : SelectorError :=
  new .expectedAttributeValue next ("expected attribute value, got " ++ label next)

def expectedClosingBracket (v : ComponentValue) : SelectorError :=
  new .expectedClosingBracket (some v) ("expected ], got " ++ v.label)

def undefinedPrefix (v : ComponentValue) (name : String) : SelectorError :=
  new .undefinedPrefix (some v) ("undefined namespace prefix: " ++ name)

def expectedLocalName (next : Option ComponentValue) : SelectorError :=
  new .expectedLocalName next ("expected local name, got " ++ label next)

/-- A name that stands for all, where one of its own is needed. -/
def expectedOwnName : SelectorError := new .expectedLocalName none "expected local name, got delim"

/-- An opening token that lies too deep to begin a group. -/
def groupTooDeep (v : ComponentValue) : SelectorError :=
  new .nestingTooDeep (some v) (v.label ++ " nested deeper than " ++ Nat.repr maxGroupDepth ++ " levels")

/-- A pseudo-class with a list of selectors, inside `limit` others. -/
def logicalTooDeep (limit : Nat) : SelectorError :=
  new .nestingTooDeep none ("logical combinators nested deeper than " ++ Nat.repr limit ++ " levels")

end SelectorError
end CssSelector
