import CssSelector.Text.CodePoint
import CssSelector.Number.Nearest

/-!
Numerals: an optional sign, digits with an optional fraction, and an optional exponent. A point or an exponent mark is
part of a numeral only if digits follow it.
-/

namespace CssSelector

/-- The exponent of a numeral, with the letter that marks it. -/
structure Exponent where
  mark : Char
  sign : Option Char
  digits : List Char
deriving DecidableEq, Repr

/-- A numeral as it is written. There is no point where `fraction` is empty. -/
structure Numeral where
  sign : Option Char
  whole : List Char
  fraction : List Char
  exponent : Option Exponent
deriving DecidableEq, Repr

/-- The number that decimal digits write. -/
def decimalNumber (digits : List Char) : Nat := digits.foldl (fun n c => 10 * n + CodePoint.digitValue c) 0

namespace Exponent

def text (e : Exponent) : List Char := e.mark :: (e.sign.toList ++ e.digits)

def value (e : Exponent) : Int :=
  if e.sign = some '-' then -decimalNumber e.digits else decimalNumber e.digits

/-- Reads the exponent that a text may begin with. -/
def scan : List Char → Option Exponent × List Char
  | [] => (none, [])
  | c :: cs =>
    if c = 'e' ∨ c = 'E' then
      match cs with
      | [] => (none, [c])
      | d :: ds =>
        if d.isDigit then (some ⟨c, none, cs.takeWhile Char.isDigit⟩, cs.dropWhile Char.isDigit)
        else if (d = '+' ∨ d = '-') ∧ ds.head?.any Char.isDigit then
          (some ⟨c, some d, ds.takeWhile Char.isDigit⟩, ds.dropWhile Char.isDigit)
        else (none, c :: cs)
    else (none, c :: cs)

end Exponent

namespace Numeral

def text (n : Numeral) : List Char :=
  n.sign.toList ++ n.whole ++ (if n.fraction = [] then [] else '.' :: n.fraction) ++
    (n.exponent.map Exponent.text).getD []

/-- The number nearest to what the numeral writes. -/
def value (n : Numeral) : Single :=
  let digits := n.whole ++ n.fraction
  Single.ofDecimal (n.sign == some '-') (decimalNumber digits) digits.length
    ((n.exponent.map Exponent.value).getD 0 - n.fraction.length)

/-- Reads the sign that a text may begin with. -/
def scanSign : List Char → Option Char × List Char
  | [] => (none, [])
  | c :: cs => if c = '+' ∨ c = '-' then (some c, cs) else (none, c :: cs)

/-- Reads the fraction that a text may begin with: a point and the digits behind it, if there are any. -/
def scanFraction : List Char → List Char × List Char
  | '.' :: cs =>
    if cs.head?.any Char.isDigit then (cs.takeWhile Char.isDigit, cs.dropWhile Char.isDigit) else ([], '.' :: cs)
  | cs => ([], cs)

/-- Does the text begin with a digit, or with a point and a digit? -/
def startsUnsigned : List Char → Bool
  | '.' :: cs => cs.head?.any Char.isDigit
  | cs => cs.head?.any Char.isDigit

/-- Does the text begin with a numeral? -/
def starts : List Char → Bool
  | [] => false
  | c :: cs => if c = '+' ∨ c = '-' then startsUnsigned cs else startsUnsigned (c :: cs)

/-- Reads the numeral that a text begins with. -/
def scan (cs : List Char) : Numeral × List Char :=
  let (sign, cs) := scanSign cs
  let (fraction, rest) := scanFraction (cs.dropWhile Char.isDigit)
  let (exponent, rest) := Exponent.scan rest
  (⟨sign, cs.takeWhile Char.isDigit, fraction, exponent⟩, rest)

end Numeral
end CssSelector
