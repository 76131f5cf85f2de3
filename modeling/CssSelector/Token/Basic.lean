import CssSelector.Location
import CssSelector.Number.Single

/-!
Tokens. A token keeps what it means, not how it was spelled: names and strings have their escapes resolved and numbers
their value.
-/

namespace CssSelector

/-- What a token is. -/
inductive TokenKind where
  /-- A name behind an at sign. -/
  | atKeyword (name : String)
  | ident (name : String)
  /-- A name directly followed by an opening parenthesis, which belongs to the token. -/
  | function (name : String)
  | dimension (value : Single) (unit : String)
  | percentage (value : Single)
  | number (value : Single)
  | quotedString (value : String)
  /-- A string broken off by a line feed. -/
  | badString (value : String)
  | whitespace
  /-- A name behind a hash sign that could not stand alone. -/
  | hash (name : String)
  /-- A name behind a hash sign that is an identifier. -/
  | idHash (name : String)
  | delim (c : Char)
  | includeMatch
  | dashMatch
  | prefixMatch
  | suffixMatch
  | substringMatch
  | column
  | leftCurly
  | rightCurly
  | leftParen
  | rightParen
  | leftBracket
  | rightBracket
  | comma
  | colon
  | semicolon
  /-- The end of the text. -/
  | eof
  /-- What stands between the marks of a comment. -/
  | comment (text : String)
deriving DecidableEq, Repr, Inhabited

/-- A token and the place where it begins. -/
structure Token where
  kind : TokenKind
  location : Location
deriving DecidableEq, Repr, Inhabited

namespace TokenKind

def isComment : TokenKind → Bool
  | comment _ => true
  | _ => false

def isDelim (c : Char) : TokenKind → Bool
  | delim d => d == c
  | _ => false

/-- Equality, with numbers compared as numbers. -/
def equal : TokenKind → TokenKind → Bool
  | dimension v u, dimension w t => v.equal w && u == t
  | percentage v, percentage w => v.equal w
  | number v, number w => v.equal w
  | a, b => a == b

end TokenKind

namespace Token

def isEof (t : Token) : Bool := t.kind == .eof

def isWhitespace (t : Token) : Bool := t.kind == .whitespace

def isComment (t : Token) : Bool := t.kind.isComment

def isDelim (c : Char) (t : Token) : Bool := t.kind.isDelim c

def equal (a b : Token) : Bool := a.kind.equal b.kind && a.location == b.location

end Token
end CssSelector
