import CssSelector.Text.CodePoint
import CssSelector.Token.Basic

/-!
Component values: a token that stands alone, a function with its arguments, or a bracketed block with its content. All
grammar above the tokens is a grammar of these.
-/

namespace CssSelector

/-- The brackets of a block. -/
inductive Bracket where
  | round
  | square
  | curly
deriving DecidableEq, Repr

inductive ComponentValue where
  | token (t : Token)
  | function (name : String) (arguments : List ComponentValue) (location : Location)
  | block (bracket : Bracket) (content : List ComponentValue) (location : Location)
deriving Inhabited

/-- Groups lie at most this deep. An opening token below that depth stands alone. -/
def maxGroupDepth : Nat := 256

/-- What kind of token it is, in a word or two. -/
def TokenKind.label : TokenKind → String
  | atKeyword _ => "at-keyword"
  | ident _ => "ident"
  | function _ => "function"
  | dimension _ _ => "dimension"
  | percentage _ => "percentage"
  | number _ => "number"
  | quotedString _ => "string"
  | badString _ => "bad-string"
  | whitespace => "whitespace"
  | hash _ | idHash _ => "hash"
  | delim _ => "delim"
  | includeMatch | dashMatch | prefixMatch | suffixMatch | substringMatch => "match"
  | column => "column"
  | leftCurly | leftParen | leftBracket => "opening bracket"
  | rightCurly | rightParen | rightBracket => "closing bracket"
  | comma => "comma"
  | colon => "colon"
  | semicolon => "semicolon"
  | eof => "EOF"
  | comment _ => "comment"

namespace ComponentValue

/-- The place where the value begins. -/
def location : ComponentValue → Location
  | token t => t.location
  | function _ _ l => l
  | block _ _ l => l

/-- What the token is, if the value is a lone token. -/
def kind? : ComponentValue → Option TokenKind
  | token t => some t.kind
  | _ => none

/-- What kind of value it is, in a word or two. -/
def label : ComponentValue → String
  | token t => t.kind.label
  | function _ _ _ => "function"
  | block .round _ _ => "() block"
  | block .square _ _ => "[] block"
  | block .curly _ _ => "\x7b\x7d block"

/-- The identifier that the value is. -/
def ident? : ComponentValue → Option String
  | token ⟨.ident name, _⟩ => some name
  | _ => none

/-- The name of an identifier, function or at-keyword in lower case. -/
def lowerName? : ComponentValue → Option String
  | function name _ _ => some (asciiLower name)
  | token ⟨.ident name, _⟩ => some (asciiLower name)
  | token ⟨.atKeyword name, _⟩ => some (asciiLower name)
  | token ⟨.function name, _⟩ => some (asciiLower name)
  | _ => none

def isDelim (c : Char) : ComponentValue → Bool
  | token t => t.isDelim c
  | _ => false

def isWhitespace : ComponentValue → Bool
  | token t => t.isWhitespace
  | _ => false

def isComment : ComponentValue → Bool
  | token t => t.isComment
  | _ => false

/-- Whitespace or a comment. -/
def isGap (v : ComponentValue) : Bool := v.isWhitespace || v.isComment

def isFunction : ComponentValue → Bool
  | function _ _ _ => true
  | _ => false

def isComma : ComponentValue → Bool
  | token t => t.kind == .comma
  | _ => false

def isColon : ComponentValue → Bool
  | token t => t.kind == .colon
  | _ => false

/-- An opening token that stands alone, as it does where it lies too deep to begin a group. -/
def isStrayOpener : ComponentValue → Bool
  | token ⟨.function _, _⟩ | token ⟨.leftParen, _⟩ | token ⟨.leftBracket, _⟩ | token ⟨.leftCurly, _⟩ => true
  | _ => false

end ComponentValue

/-! ### Equality -/

mutual

/-- Equality, places included, with numbers compared as numbers. -/
def ComponentValue.equal : ComponentValue → ComponentValue → Bool
  | .token a, .token b => a.equal b
  | .function n vs l, .function m ws k => n == m && ComponentValue.equalAll vs ws && l == k
  | .block b vs l, .block c ws k => b == c && ComponentValue.equalAll vs ws && l == k
  | _, _ => false

def ComponentValue.equalAll : List ComponentValue → List ComponentValue → Bool
  | [], [] => true
  | v :: vs, w :: ws => v.equal w && ComponentValue.equalAll vs ws
  | _, _ => false

end

end CssSelector
