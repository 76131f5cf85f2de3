import CssSelector.Text.CodePoint

/-!
Preprocessing of a text before it is read: every line break becomes one line feed and NUL becomes the replacement
character. Two code points are merged in one place only, at a carriage return followed by a line feed.
-/

namespace CssSelector
namespace Text

/-- The code point that stands for `c`, taken alone. -/
def normalize (c : Char) : Char :=
  if c = '\r' ∨ c = '\x0c' then '\n' else if c = '\x00' then CodePoint.replacement else c

/-- The text as it is read. -/
def preprocess : List Char → List Char
  | [] => []
  | '\r' :: '\n' :: cs => '\n' :: preprocess cs
  | c :: cs => normalize c :: preprocess cs

end Text
end CssSelector
