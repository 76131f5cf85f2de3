import CssSelector.Text.Preprocess

/-!
The text that is still to be read. Text comes in chunks, each preprocessed on its own, and only what is unread is kept.
-/

namespace CssSelector

/-- One look at the text: a code point, or `none` at its end. -/
abbrev Reading := Option Char

namespace Reading

/-- The end of the text is shown by name. -/
def text : Reading → String
  | some c => c.toString
  | none => "StreamEnd"

/-- The code point as a number; the end of the text counts as zero. -/
def code : Reading → Nat
  | some c => c.toNat
  | none => 0

def isBlank (r : Reading) : Bool := r.any CodePoint.isBlank

def isDigit (r : Reading) : Bool := r.any Char.isDigit

end Reading

/-- A preprocessed text of which a beginning has been read. -/
structure Source where
  unread : List Char := []

namespace Source

/-- The source of one chunk. -/
def ofString (s : String) : Source := ⟨Text.preprocess s.toList⟩

/-- A further chunk behind the unread text. A line break whose halves lie in two chunks counts twice. -/
def append (t : Source) (s : String) : Source := ⟨t.unread ++ Text.preprocess s.toList⟩

/-- The code point `n` places ahead. -/
def look (t : Source) (n : Nat) : Reading := t.unread[n]?

/-- The source after one code point; at the end of the text it stays. -/
def advance (t : Source) : Source := ⟨t.unread.tail⟩

def isExhausted (t : Source) : Bool := t.unread.isEmpty

end Source
end CssSelector
