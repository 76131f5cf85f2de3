import CssSelector.ComponentValue.Basic
import CssSelector.Token.Printer

/-!
The text of component values. A group that the input left open is closed in its text.
-/

namespace CssSelector

def Bracket.opening : Bracket → String
  | round => "("
  | square => "["
  | curly => "\x7b"

def Bracket.closing : Bracket → String
  | round => ")"
  | square => "]"
  | curly => "\x7d"

mutual

def ComponentValue.text : ComponentValue → String
  | .token t => t.text
  | .function name arguments _ => name ++ "(" ++ ComponentValue.textAll arguments ++ ")"
  | .block bracket content _ => bracket.opening ++ ComponentValue.textAll content ++ bracket.closing

/-- The texts of values one after the other. -/
def ComponentValue.textAll : List ComponentValue → String
  | [] => ""
  | v :: vs => v.text ++ ComponentValue.textAll vs

end

end CssSelector
