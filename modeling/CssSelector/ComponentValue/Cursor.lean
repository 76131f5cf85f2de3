import CssSelector.ComponentValue.Basic

/-!
Reading component values from the front. The position in a list is given by what is left of it.
-/

namespace CssSelector

/-- The values that are left to be read. -/
abbrev Cursor := List ComponentValue

namespace Cursor

/-- The next value. -/
def peek (c : Cursor) : Option ComponentValue := c.head?

/-- What is left behind the next value. -/
def advance (c : Cursor) : Cursor := c.tail

def isExhausted (c : Cursor) : Bool := c.isEmpty

def skipWhitespace (c : Cursor) : Cursor := c.dropWhile ComponentValue.isWhitespace

def skipComments (c : Cursor) : Cursor := c.dropWhile ComponentValue.isComment

/-- What is left behind whitespace and comments. -/
def skipGap (c : Cursor) : Cursor := c.dropWhile ComponentValue.isGap

/-- What is left behind the next comma, if there is one. -/
def pastComma? : Cursor → Option Cursor
  | [] => none
  | v :: vs => if v.isComma then some vs else pastComma? vs

theorem length_skipGap_le (c : Cursor) : c.skipGap.length ≤ c.length := (List.dropWhile_suffix _).length_le

theorem length_skipWhitespace_le (c : Cursor) : c.skipWhitespace.length ≤ c.length :=
  (List.dropWhile_suffix _).length_le

theorem length_lt_of_pastComma? {c d : Cursor} (h : c.pastComma? = some d) : d.length < c.length := by
  induction c with
  | nil => simp [pastComma?] at h
  | cons v vs ih =>
    simp only [pastComma?] at h
    split at h
    · obtain rfl := Option.some.inj h
      simp
    · exact Nat.lt_succ_of_lt (ih h)

end Cursor
end CssSelector
