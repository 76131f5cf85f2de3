/-!
Single precision binary numbers, kept as their 32 bits: a sign, an exponent field of 8 bits and a fraction of 23. A
finite number is its significand times a power of two; all powers are counted from the smallest one, so that scale and
significand are natural numbers.
-/

namespace CssSelector

/-- A number of 32 bits, the infinities and the values that are no numbers included. -/
structure Single where
  bits : UInt32
deriving DecidableEq, Repr, Inhabited

namespace Single

/-- The pattern of positive infinity. -/
def infinityBits : Nat := 0xff * Nat.pow 2 23

/-- The number with a given sign and the given 31 bits below it. -/
def ofMagnitude (negative : Bool) (bits : Nat) : Single :=
  ⟨UInt32.ofNat (if negative then Nat.pow 2 31 + bits else bits)⟩

def isNegative (x : Single) : Bool := Nat.pow 2 31 ≤ x.bits.toNat

/-- The bits below the sign. -/
def magnitude (x : Single) : Nat := x.bits.toNat % Nat.pow 2 31

def exponentField (x : Single) : Nat := x.magnitude / Nat.pow 2 23

def fractionField (x : Single) : Nat := x.magnitude % Nat.pow 2 23

def isNaN (x : Single) : Bool := infinityBits < x.magnitude

def isInfinite (x : Single) : Bool := x.magnitude == infinityBits

def isZero (x : Single) : Bool := x.magnitude == 0

/-- The whole number that a power of two is multiplied with; only the least numbers lack the leading bit. -/
def significand (x : Single) : Nat :=
  if x.exponentField = 0 then x.fractionField else x.fractionField + Nat.pow 2 23

/-- The power of two of a finite number, counted from `2 ^ (-149)`. -/
def scale (x : Single) : Nat := x.exponentField - 1

/-- Equality as numbers: the two zeros are equal, and what is no number differs from itself. -/
def equal (x y : Single) : Bool :=
  !x.isNaN && !y.isNaN && ((x.isZero && y.isZero) || x.bits == y.bits)

end Single
end CssSelector
