import CssSelector.Selector.Basic

/-!
Equality of selectors. It is the equality of their parts, where the arguments of pseudo-classes are compared as
component values are, with their places and with numbers as numbers.
-/

namespace CssSelector

mutual

def SimpleSelector.equal : SimpleSelector → SimpleSelector → Bool
  | .localName a, .localName b => a == b
  | .inNamespace a, .inNamespace b => a == b
  | .id a, .id b => a == b
  | .className a, .className b => a == b
  | .attribute a, .attribute b => a == b
  | .pseudoClass a, .pseudoClass b => a == b
  | .functional a vs, .functional b ws => a == b && ComponentValue.equalAll vs ws
  | .negation as, .negation bs => Selector.equalAll as bs
  | .relational as, .relational bs => RelativeSelector.equalAll as bs
  | .matchesAny as, .matchesAny bs => Selector.equalAll as bs
  | .weightless as, .weightless bs => Selector.equalAll as bs
  | _, _ => false

def SimpleSelector.equalAll : List SimpleSelector → List SimpleSelector → Bool
  | [], [] => true
  | a :: as, b :: bs => a.equal b && SimpleSelector.equalAll as bs
  | _, _ => false

def ComplexSelector.equal : ComplexSelector → ComplexSelector → Bool
  | .compound as, .compound bs => SimpleSelector.equalAll as bs
  | .combined l c as, .combined m d bs => l.equal m && c == d && SimpleSelector.equalAll as bs
  | _, _ => false

def Selector.equal : Selector → Selector → Bool
  | ⟨t, p⟩, ⟨u, q⟩ => t.equal u && p == q

def Selector.equalAll : List Selector → List Selector → Bool
  | [], [] => true
  | a :: as, b :: bs => a.equal b && Selector.equalAll as bs
  | _, _ => false

def RelativeSelector.equal : RelativeSelector → RelativeSelector → Bool
  | ⟨c, s⟩, ⟨d, t⟩ => c == d && s.equal t

def RelativeSelector.equalAll : List RelativeSelector → List RelativeSelector → Bool
  | [], [] => true
  | a :: as, b :: bs => a.equal b && RelativeSelector.equalAll as bs
  | _, _ => false

end

namespace Branch

def equal : Branch → Branch → Bool
  | absolute a, absolute b => a.equal b
  | relative a, relative b => a.equal b
  | _, _ => false

def equalAll : List Branch → List Branch → Bool
  | [], [] => true
  | a :: as, b :: bs => a.equal b && equalAll as bs
  | _, _ => false

end Branch
end CssSelector
