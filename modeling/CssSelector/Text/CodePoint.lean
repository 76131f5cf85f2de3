/-!
Classes of code points, as far as the syntax tells them apart. Letters and digits are the ASCII ones; a code point
outside ASCII may stand anywhere in a name.
-/

namespace CssSelector
namespace CodePoint

/-- What stands in for a code point that cannot be represented. -/
def replacement : Char := '\ufffd'

/-- A blank: space, tab or line feed. Preprocessed text has no other line break. -/
def isBlank (c : Char) : Bool := c == ' ' || c == '\t' || c == '\n'

def isHexDigit (c : Char) : Bool :=
  c.isDigit || ('a' ≤ c && c ≤ 'f') || ('A' ≤ c && c ≤ 'F')

/-- The value of a hexadecimal digit of either letter case. -/
def hexValue (c : Char) : Nat :=
  if c.isDigit then c.toNat - '0'.toNat
  else if 'a' ≤ c then c.toNat - 'a'.toNat + 10
  else c.toNat - 'A'.toNat + 10

/-- The value of a decimal digit. -/
def digitValue (c : Char) : Nat := c.toNat - '0'.toNat

def isAscii (c : Char) : Bool := c.toNat < 128

/-- A code point that may begin a name. -/
def isNameStart (c : Char) : Bool := c.isAlpha || !isAscii c || c == '_'

/-- A code point that may stand inside a name. -/
def isNameChar (c : Char) : Bool := isNameStart c || c.isDigit || c == '-'

/-- The ASCII capitals are lowered by 32; no other letter changes. -/
theorem toLower_cases (c : Char) :
    c.toLower = c ∨ 65 ≤ c.toNat ∧ c.toNat ≤ 90 ∧ c.toLower.toNat = c.toNat + 32 := by
  by_cases h : c.val ≥ 'A'.val ∧ c.val ≤ 'Z'.val
  · have hge : 65 ≤ c.toNat := UInt32.le_iff_toNat_le.mp h.1
    have hle : c.toNat ≤ 90 := UInt32.le_iff_toNat_le.mp h.2
    have hlower : c.toLower.toNat = (c.val + 32).toNat := congrArg Char.toNat (dif_pos h)
    refine .inr ⟨hge, hle, hlower.trans ?_⟩
    exact Nat.mod_eq_of_lt (Nat.lt_of_le_of_lt (Nat.add_le_add_right hle 32) (by decide))
  · exact .inl (dif_neg h)

/-- What has been lowered is no capital any more. -/
theorem toLower_toLower (c : Char) : c.toLower.toLower = c.toLower := by
  rcases toLower_cases c with h | ⟨hge, -, h⟩
  · rw [h, h]
  · rcases toLower_cases c.toLower with h' | ⟨-, hle, -⟩
    · exact h'
    · omega

end CodePoint

/-- A text with its ASCII capitals lowered; no other letter changes. -/
def asciiLower (s : String) : String := String.ofList (s.toList.map Char.toLower)

end CssSelector
