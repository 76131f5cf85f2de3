import CssSelector.ComponentValue.Basic
import CssSelector.Text.Source
import CssSelector.Token.Lexer

/-!
From tokens to component values. Tokens are taken one at a time; an opening token begins a group, and the next token
that closes the innermost open group ends it. Every other closing token stands alone, and the end of the text closes all
groups that are open.
-/

namespace CssSelector

/-- The token that closes the group begun by an opening token. -/
def TokenKind.closer? : TokenKind → Option TokenKind
  | function _ | leftParen => some rightParen
  | leftBracket => some rightBracket
  | leftCurly => some rightCurly
  | _ => none

/-- The group that an opening token makes of the values up to its end. -/
def ComponentValue.ofGroup (opener : Token) (content : List ComponentValue) : ComponentValue :=
  match opener.kind with
  | .function name => function name content opener.location
  | .leftParen => block .round content opener.location
  | .leftBracket => block .square content opener.location
  | .leftCurly => block .curly content opener.location
  | _ => token opener

/-- A group that is still open: its opening token, and the values before it in the list that it belongs to, the last
one first. -/
structure OpenGroup where
  opener : Token
  before : List ComponentValue

/-- The state between two tokens: the open groups, the innermost first, and the values of the innermost list so far, the
last one first. -/
structure Grouping where
  groups : List OpenGroup := []
  values : List ComponentValue := []

namespace Grouping

/-- Adds one value to the innermost list. -/
def push (g : Grouping) (v : ComponentValue) : Grouping := { g with values := v :: g.values }

/-- Takes a token that closes nothing. -/
def begin (g : Grouping) (t : Token) : Grouping :=
  if t.kind.closer?.isSome ∧ g.groups.length < maxGroupDepth then ⟨⟨t, g.values⟩ :: g.groups, []⟩
  else g.push (.token t)

/-- Takes one token. -/
def step (g : Grouping) (t : Token) : Grouping :=
  match g.groups with
  | [] => g.begin t
  | o :: os =>
    if o.opener.kind.closer? = some t.kind then ⟨os, .ofGroup o.opener g.values.reverse :: o.before⟩
    else g.begin t

/-- Closes groups, the innermost first, around the values of the innermost list. -/
def close : List OpenGroup → List ComponentValue → List ComponentValue
  | [], vs => vs.reverse
  | o :: os, vs => close os (.ofGroup o.opener vs.reverse :: o.before)

/-- The values when there are no more tokens. -/
def finish (g : Grouping) : List ComponentValue := close g.groups g.values

end Grouping

namespace ComponentValue

/-- The component values that tokens make. -/
def group (ts : List Token) : List ComponentValue := (ts.foldl Grouping.step {}).finish

/-- The component values of a text. -/
def ofString (s : String) : List ComponentValue :=
  group ((Token.scanAll .origin .origin (Source.ofString s).unread).takeWhile (!·.isEof))

end ComponentValue
end CssSelector
