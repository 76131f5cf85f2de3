import CssSelector.ComponentValue.Printer
import CssSelector.Selector.Basic

/-!
The text of selectors. Names are written as they are. A compound writes its namespace first and then, if it has no local
name, a star where one is needed: behind a namespace, or for want of anything else.
-/

namespace CssSelector

/-- The condition in square brackets. Without a namespace nothing stands before the name, and a value is quoted. -/
def AttributeSelector.text (a : AttributeSelector) : String :=
  "[" ++ (if a.scope = .empty then "" else a.scope.text) ++ a.name.name ++
    (match a.operator, a.value with
      | some operator, some value => operator.text ++ Quoted.encode value
      | _, _ => "") ++ "]"

namespace SimpleSelector

/-- The namespace that a simple selector is about. -/
def scope? : SimpleSelector → Option Namespace
  | inNamespace scope => some scope
  | _ => none

def isLocalName : SimpleSelector → Bool
  | localName _ => true
  | _ => false

end SimpleSelector

/-- What a compound begins with: its first namespace, and a star if no local name follows that or nothing else does. -/
def CompoundSelector.head (simples : CompoundSelector) : String :=
  let scope := simples.findSome? SimpleSelector.scope?
  (scope.map Namespace.text).getD "" ++
    (if !simples.any SimpleSelector.isLocalName && (scope.isSome || simples.isEmpty) then "*" else "")

mutual

def SimpleSelector.text : SimpleSelector → String
  | .localName name => name.name
  | .inNamespace scope => scope.text
  | .id name => "#" ++ name
  | .className name => "." ++ name
  | .attribute test => test.text
  | .pseudoClass name => ":" ++ name
  | .functional name arguments => ":" ++ name ++ "(" ++ ComponentValue.textAll arguments ++ ")"
  | .negation branches => ":not(" ++ Selector.textList branches ++ ")"
  | .relational branches => ":has(" ++ RelativeSelector.textList branches ++ ")"
  | .matchesAny branches => ":is(" ++ Selector.textList branches ++ ")"
  | .weightless branches => ":where(" ++ Selector.textList branches ++ ")"

/-- The texts of the simple selectors that are no namespaces, one after the other. -/
def CompoundSelector.tail : List SimpleSelector → String
  | [] => ""
  | s :: ss => (if s.scope?.isSome then "" else s.text) ++ CompoundSelector.tail ss

def ComplexSelector.text : ComplexSelector → String
  | .compound simples => CompoundSelector.head simples ++ CompoundSelector.tail simples
  | .combined left combinator right =>
    left.text ++ combinator.text ++ (CompoundSelector.head right ++ CompoundSelector.tail right)

def Selector.text : Selector → String
  | ⟨tree, pseudoElement⟩ => tree.text ++ (pseudoElement.map ("::" ++ ·)).getD ""

def RelativeSelector.text : RelativeSelector → String
  | ⟨.descendant, selector⟩ => selector.text
  | ⟨combinator, selector⟩ => combinator.text ++ " " ++ selector.text

/-- The texts of selectors, separated by commas. -/
def Selector.textList : List Selector → String
  | [] => ""
  | s :: ss => s.text ++ Selector.textRest ss

/-- The texts of further selectors, each behind a comma. -/
def Selector.textRest : List Selector → String
  | [] => ""
  | s :: ss => ", " ++ s.text ++ Selector.textRest ss

/-- The texts of relative selectors, separated by commas. -/
def RelativeSelector.textList : List RelativeSelector → String
  | [] => ""
  | r :: rs => r.text ++ RelativeSelector.textRest rs

/-- The texts of further relative selectors, each behind a comma. -/
def RelativeSelector.textRest : List RelativeSelector → String
  | [] => ""
  | r :: rs => ", " ++ r.text ++ RelativeSelector.textRest rs

end

def CompoundSelector.text (simples : CompoundSelector) : String := simples.head ++ CompoundSelector.tail simples

def Branch.text : Branch → String
  | absolute s => s.text
  | relative r => r.text

end CssSelector
