import CssSelector.Text.CodePoint

/-!
Escapes: a backslash followed by a code point that stands for itself, or by up to six hexadecimal digits that give a
code point by number. What follows the backslash is read by `Escape.read`, and nothing is read twice.
-/

namespace CssSelector
namespace Escape

open CodePoint

/-- Does the text begin with an escape? A backslash at the very end does, one before a line feed does not. -/
def starts : List Char → Bool
  | '\\' :: '\n' :: _ => false
  | '\\' :: _ => true
  | _ => false

/-- The code point of a given number. Zero, surrogates and everything from U+10FFFF on cannot be escaped. -/
def ofNumber (n : Nat) : Char :=
  if n = 0 ∨ 0x10ffff ≤ n ∨ ¬ n.isValidChar then replacement else Char.ofNat n

/-- The number that hexadecimal digits write. -/
def hexNumber (digits : List Char) : Nat := digits.foldl (fun n c => 16 * n + hexValue c) 0

/-- The hexadecimal digits at the beginning of a text, six at most. -/
def hexDigits (cs : List Char) : List Char := (cs.take 6).takeWhile isHexDigit

/-- A text without the blank that it may begin with. -/
def dropBlank : List Char → List Char
  | c :: cs => if isBlank c then cs else c :: cs
  | [] => []

/-- Reads what follows the backslash: the code point that is meant, and the rest of the text. -/
def read : List Char → Char × List Char
  | [] => (replacement, [])
  | c :: cs =>
    if isHexDigit c then
      let digits := hexDigits (c :: cs)
      (ofNumber (hexNumber digits), dropBlank ((c :: cs).drop digits.length))
    else (c, cs)

theorem length_dropBlank_le (cs : List Char) : (dropBlank cs).length ≤ cs.length := by
  cases cs with
  | nil => simp [dropBlank]
  | cons c cs => simp only [dropBlank]; split <;> simp

theorem length_read_le (cs : List Char) : (read cs).2.length ≤ cs.length := by
  cases cs with
  | nil => simp [read]
  | cons c cs =>
    simp only [read]
    split
    · exact Nat.le_trans (length_dropBlank_le _) (by simp)
    · simp

/-- An escape takes at least one code point, when there is one. -/
theorem length_read_lt (c : Char) (cs : List Char) : (read (c :: cs)).2.length < (c :: cs).length := by
  simp only [read]
  split
  · next h =>
    refine Nat.lt_of_le_of_lt (length_dropBlank_le _) ?_
    simp only [hexDigits, List.take_succ_cons, List.takeWhile_cons_of_pos h, List.length_drop, List.length_cons]
    omega
  · simp

end Escape
end CssSelector
