/-!
Namespaces of elements and attributes, and the declarations that give prefixes their meaning.
-/

namespace CssSelector

/-- What a selector says about a namespace. -/
inductive Namespace where
  /-- Nothing: every namespace will do. -/
  | any
  /-- In no namespace. -/
  | empty
  | url (u : String)
deriving DecidableEq, Repr

namespace Namespace

/-- The namespace of a URL; the empty one means no namespace. -/
def ofUrl (u : String) : Namespace := if u = "" then empty else url u

/-- The URL of a namespace, empty for no namespace. -/
def url? : Namespace → Option String
  | any => none
  | empty => some ""
  | url u => some u

/-- The namespace as it stands before a name. -/
def text : Namespace → String
  | any => "*|"
  | empty => "|"
  | url u => "\x7b" ++ u ++ "\x7d|"

end Namespace

/-- Declarations: the URL of unprefixed element names, and prefixes with their URLs, the latest first. -/
structure Namespaces where
  defaultUrl : Option String := none
  declared : List (String × String) := []

namespace Namespaces

/-- No declarations. -/
def empty : Namespaces := {}

def withDefault (n : Namespaces) (u : String) : Namespaces := { n with defaultUrl := some u }

/-- A further prefix. An earlier declaration of it no longer counts. -/
def declare (n : Namespaces) (p u : String) : Namespaces := { n with declared := (p, u) :: n.declared }

/-- What a prefix means, if it is declared. -/
def resolve (n : Namespaces) (p : String) : Option Namespace := (n.declared.lookup p).map Namespace.ofUrl

/-- The namespace of unprefixed element names. -/
def default (n : Namespaces) : Namespace := (n.defaultUrl.map Namespace.ofUrl).getD .any

/-- Equality of what is declared, in whatever order. -/
def equal (m n : Namespaces) : Bool :=
  m.defaultUrl == n.defaultUrl &&
    (m.declared ++ n.declared).all fun d => m.declared.lookup d.1 == n.declared.lookup d.1

end Namespaces
end CssSelector
