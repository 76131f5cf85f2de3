import CssSelector.Number.Single

/-!
The shortest decimal text of a single precision number. The numbers that round to `x` form an interval; the coarsest
decimal grid with a point in it gives the digits, and of two such points the nearer one, halfway the greater. The text
is written out in full, without an exponent.
-/

namespace CssSelector
namespace Single

/-- A decimal number `digits / 10 ^ places * 10 ^ 38`. -/
structure Decimal where
  digits : Nat
  places : Nat
deriving DecidableEq, Repr

/-- The point next to `x` on the grid of step `10 ^ (38 - places)` that lies in the interval of `x`, if there is one.
All lengths are quarters of the unit of `x`, times `1 / grid` of the grid's step. The end points belong to the interval
if the significand is even, and the lower half is narrower where the scale changes. -/
def gridPoint (x : Single) (places : Nat) : Option Decimal :=
  let m := x.significand
  let unit := Nat.pow 2 x.scale * Nat.pow 10 places
  let grid := 4 * Nat.pow 2 149 * Nat.pow 10 38
  let value := 4 * m * unit
  let low := (if m = Nat.pow 2 23 ∧ 0 < x.scale then 4 * m - 1 else 4 * m - 2) * unit
  let high := (4 * m + 2) * unit
  let below := value / grid
  let above := below + 1
  let fits (a b : Nat) : Bool := if m % 2 = 0 then a ≤ b else a < b
  match fits low (below * grid), fits (above * grid) high with
  | true, true => some ⟨if above * grid - value ≤ value - below * grid then above else below, places⟩
  | true, false => some ⟨below, places⟩
  | false, true => some ⟨above, places⟩
  | false, false => none

/-- The grid of step `2 ^ (-149)` is reached after this many places, and it holds every finite number. -/
def maxPlaces : Nat := 187

/-- The digits of a finite number other than zero. -/
def shortest (x : Single) : Decimal :=
  ((List.range (maxPlaces + 1)).findSome? x.gridPoint).getD ⟨0, 0⟩

/-- The digits of `n`, filled up with zeros on the left to `width` places. -/
def padded (width n : Nat) : String :=
  let digits := Nat.toDigits 10 n
  String.ofList (List.replicate (width - digits.length) '0' ++ digits)

/-- A decimal number written out. -/
def Decimal.text (d : Decimal) : String :=
  if d.places ≤ 38 then Nat.repr (d.digits * Nat.pow 10 (38 - d.places))
  else
    let fraction := d.places - 38
    Nat.repr (d.digits / Nat.pow 10 fraction) ++ "." ++ padded fraction (d.digits % Nat.pow 10 fraction)

/-- The text of a number. A sign is written for every negative number, zero included, and for no other. -/
def text (x : Single) : String :=
  if x.isNaN then "NaN"
  else
    (if x.isNegative then "-" else "") ++
      (if x.isInfinite then "inf" else if x.isZero then "0" else x.shortest.text)

end Single
end CssSelector
