/-!
The lines of a text as it was given. A line feed ends a line, and a carriage return before it belongs to that end; a
carriage return elsewhere stays in its line. There is no line behind the last line feed unless it has a character.
-/

namespace CssSelector
namespace Text

/-- The lines of a text, without what ends them. -/
def lines : List Char → List (List Char)
  | [] => []
  | '\n' :: cs => [] :: lines cs
  | '\r' :: '\n' :: cs => [] :: lines cs
  | c :: cs =>
    match lines cs with
    | [] => [[c]]
    | l :: ls => (c :: l) :: ls

end Text
end CssSelector
