/-!
Quoted text: a text between double quotes, in which a backslash stands before every backslash and every double quote.
-/

namespace CssSelector
namespace Quoted

/-- A text with its backslashes and double quotes escaped. -/
def escape : List Char → List Char
  | [] => []
  | c :: cs => if c = '\\' ∨ c = '"' then '\\' :: c :: escape cs else c :: escape cs

/-- A text between double quotes. -/
def encode (s : String) : String := String.ofList ('"' :: escape s.toList ++ ['"'])

end Quoted
end CssSelector
