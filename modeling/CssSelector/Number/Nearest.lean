import CssSelector.Number.Single

/-!
The single precision number nearest to a decimal one, computed exactly. Of two equally near numbers the one with the
even significand is taken, and what lies beyond the largest number is infinite.
-/

namespace CssSelector

/-- The whole number nearest to `n / d`; halfway between two, the even one. -/
def roundHalfEven (n d : Nat) : Nat :=
  let q := n / d
  let r := n % d
  if 2 * r < d ∨ (2 * r = d ∧ q % 2 = 0) then q else q + 1

namespace Single

/-- The bits below the sign of the number nearest to `n / d`. The significand gets 24 bits, or fewer at the smallest
scale, and a significand that rounding has made too long carries into the exponent field. -/
def nearestMagnitude (n d : Nat) : Nat :=
  let units := n * Nat.pow 2 149
  let scale := Nat.log2 (units / d) - 23
  min (scale * Nat.pow 2 23 + roundHalfEven units (d * Nat.pow 2 scale)) infinityBits

/-- The number nearest to `digits * 10 ^ exponent`, where `digits` has at most `count` digits. Beyond `10 ^ 39` all is
infinite and below `10 ^ (-48)` all is zero, so the powers computed stay small. -/
def ofDecimal (negative : Bool) (digits count : Nat) (exponent : Int) : Single :=
  ofMagnitude negative <|
    if digits = 0 then 0
    else if 39 ≤ exponent then infinityBits
    else if exponent + count < -48 then 0
    else nearestMagnitude (digits * Nat.pow 10 exponent.toNat) (Nat.pow 10 (-exponent).toNat)

end Single
end CssSelector
