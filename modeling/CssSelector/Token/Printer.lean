import CssSelector.Number.Shortest
import CssSelector.Text.Quoted
import CssSelector.Token.Basic

/-!
The text of a token. Names are written as they are, without escapes, and every blank becomes one space.
-/

namespace CssSelector

/-- The text of a token of some kind. A broken string is written as if it were whole. -/
def TokenKind.text : TokenKind → String
  | atKeyword name => "@" ++ name
  | ident name => name
  | function name => name ++ "("
  | dimension value unit => value.text ++ unit
  | percentage value => value.text ++ "%"
  | number value => value.text
  | quotedString value => Quoted.encode value
  | badString value => Quoted.encode value
  | whitespace => " "
  | hash name => "#" ++ name
  | idHash name => "#" ++ name
  | delim c => c.toString
  | includeMatch => "~="
  | dashMatch => "|="
  | prefixMatch => "^="
  | suffixMatch => "$="
  | substringMatch => "*="
  | column => "||"
  | leftCurly => "\x7b"
  | rightCurly => "\x7d"
  | leftParen => "("
  | rightParen => ")"
  | leftBracket => "["
  | rightBracket => "]"
  | comma => ","
  | colon => ":"
  | semicolon => ";"
  | eof => ""
  | comment t => "/*" ++ t ++ "*/"

def Token.text (t : Token) : String := t.kind.text

end CssSelector
