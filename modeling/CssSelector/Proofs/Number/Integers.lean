import CssSelector.Number.Nearest
import CssSelector.Number.Numeral
import CssSelector.Number.Shortest
import Mathlib.Tactic.Linarith
import Mathlib.Tactic.Ring

/-!
Whole numbers below `2 ^ 24` are numbers of single precision, so they are written and read exactly: the shortest text is
that of the whole number itself, and the number nearest to it is the one that was written. Main statements:
`text_of_hasAbs` and `ofDecimal_of_hasAbs`.
-/

namespace CssSelector
namespace Single

/-- The absolute value is the whole number `n`. -/
def HasAbs (x : Single) (n : Nat) : Prop := x.significand * 2 ^ x.scale = n * 2 ^ 149

/-! ### Bits -/

/-- A significand with its leading bit carries into the exponent field. -/
theorem magnitude_eq (x : Single) : x.magnitude = x.scale * 2 ^ 23 + x.significand := by
  have hsplit := Nat.div_add_mod' x.magnitude (2 ^ 23)
  have hfields : x.exponentField * 2 ^ 23 + x.fractionField = x.magnitude := hsplit
  unfold scale significand
  rw [Nat.pow_eq]
  split
  · next h =>
    rw [h] at hfields ⊢
    omega
  · omega

theorem ofMagnitude_magnitude (x : Single) : ofMagnitude x.isNegative x.magnitude = x := by
  have hbits : x.bits.toNat < 2 ^ 32 := x.bits.toNat_lt
  have hmod : x.magnitude = x.bits.toNat % 2 ^ 31 := rfl
  have hnat : (if x.isNegative then Nat.pow 2 31 + x.magnitude else x.magnitude) = x.bits.toNat := by
    rw [hmod]
    by_cases hneg : 2 ^ 31 ≤ x.bits.toNat
    · have hsign : x.isNegative = true := by simpa [isNegative] using hneg
      rw [hsign, if_pos rfl, Nat.pow_eq]
      omega
    · have hsign : x.isNegative = false := by simpa [isNegative] using hneg
      rw [hsign, if_neg (by simp)]
      omega
  obtain ⟨bits⟩ := x
  rw [ofMagnitude, hnat, UInt32.ofNat_toNat]

theorem isNegative_ofMagnitude (negative : Bool) {m : Nat} (hm : m < 2 ^ 31) :
    (ofMagnitude negative m).isNegative = negative := by
  unfold ofMagnitude isNegative
  rw [UInt32.toNat_ofNat']
  cases negative <;> simp <;> omega

/-- The sign of a number that is read is the one that was written. -/
theorem isNegative_ofDecimal (negative : Bool) (digits count : Nat) (exponent : Int) :
    (ofDecimal negative digits count exponent).isNegative = negative := by
  have hinfinity : infinityBits < 2 ^ 31 := by decide
  refine isNegative_ofMagnitude negative ?_
  split
  · exact Nat.two_pow_pos 31
  split
  · exact hinfinity
  split
  · exact Nat.two_pow_pos 31
  · exact Nat.lt_of_le_of_lt (Nat.min_le_right _ _) hinfinity

section

variable {x : Single} {n : Nat} (h : x.HasAbs n)
include h

theorem magnitude_eq_zero_of_hasAbs (hn : n = 0) : x.magnitude = 0 := by
  have hzero : x.significand = 0 := by
    rw [HasAbs, hn, Nat.zero_mul, Nat.mul_eq_zero] at h
    exact h.resolve_right (Nat.ne_of_gt (Nat.two_pow_pos _))
  have hfield : x.exponentField = 0 := by
    by_contra hne
    rw [significand, if_neg hne, Nat.pow_eq] at hzero
    omega
  rw [magnitude_eq, hzero, scale, hfield]
  rfl

variable (hn : 0 < n)
include hn

/-- The significand has its leading bit, since the least numbers are no whole ones. -/
theorem significand_of_hasAbs : 2 ^ 23 ≤ x.significand ∧ x.significand < 2 ^ 24 := by
  have hfraction : x.fractionField < 2 ^ 23 := Nat.mod_lt _ (by decide)
  by_cases hfield : x.exponentField = 0
  · rw [HasAbs, significand, if_pos hfield, scale, hfield] at h
    omega
  · rw [significand, if_neg hfield, Nat.pow_eq]
    omega

variable (hbound : n < 2 ^ 24)
include hbound

theorem scale_le_of_hasAbs : x.scale ≤ 149 := by
  by_contra hscale
  have hlow := (significand_of_hasAbs h hn).1
  have hpow : 2 ^ 150 ≤ 2 ^ x.scale := Nat.pow_le_pow_right (by decide) (by omega)
  have hprod : 2 ^ 23 * 2 ^ 150 ≤ x.significand * 2 ^ x.scale := Nat.mul_le_mul hlow hpow
  rw [h] at hprod
  omega

theorem magnitude_lt_infinityBits : x.magnitude < infinityBits := by
  have hscale := scale_le_of_hasAbs h hn hbound
  have hhigh := (significand_of_hasAbs h hn).2
  have hinfinity : infinityBits = 255 * 2 ^ 23 := rfl
  rw [magnitude_eq, hinfinity]
  omega

end

/-! ### Reading -/

theorem roundHalfEven_mul (m : Nat) {d : Nat} (hd : 0 < d) : roundHalfEven (m * d) d = m := by
  have hr : m * d % d = 0 := Nat.mul_mod_left m d
  have hq : m * d / d = m := Nat.mul_div_cancel m hd
  rw [roundHalfEven, hr, hq, if_pos (.inl (by omega))]

section

variable {x : Single} {n : Nat} (h : x.HasAbs n) (hbound : n < 2 ^ 24)
include h hbound

theorem nearestMagnitude_of_hasAbs (hn : 0 < n) : nearestMagnitude n 1 = x.magnitude := by
  obtain ⟨hlow, hhigh⟩ := significand_of_hasAbs h hn
  have hunits : n * Nat.pow 2 149 = x.significand * 2 ^ x.scale := h.symm
  have hlog : Nat.log2 (x.significand * 2 ^ x.scale) = 23 + x.scale := by
    rw [Nat.log2_eq_iff (by positivity), Nat.add_right_comm, Nat.pow_add, Nat.pow_add]
    exact ⟨Nat.mul_le_mul_right _ hlow, Nat.mul_lt_mul_of_pos_right hhigh (by positivity)⟩
  have hlt := magnitude_lt_infinityBits h hn hbound
  unfold nearestMagnitude
  dsimp only
  rw [hunits, Nat.div_one, hlog, Nat.add_sub_cancel_left, Nat.one_mul, Nat.pow_eq, Nat.pow_eq,
    roundHalfEven_mul _ (by positivity), ← magnitude_eq]
  exact Nat.min_eq_left hlt.le

/-- **The digits of a small whole number are read exactly.** -/
theorem ofDecimal_of_hasAbs (count : Nat) : ofDecimal x.isNegative n count 0 = x := by
  have hmagnitude : (if n = 0 then 0 else nearestMagnitude (n * 10 ^ 0) (10 ^ 0)) = x.magnitude := by
    split
    · next hn => exact (magnitude_eq_zero_of_hasAbs h hn).symm
    · next hn =>
      rw [Nat.pow_zero, Nat.mul_one]
      exact nearestMagnitude_of_hasAbs h hbound (Nat.pos_of_ne_zero hn)
  have hlow : ¬(0 + (count : Int) < -48) := by omega
  unfold ofDecimal
  rw [if_neg (by decide : ¬(39 : Int) ≤ 0), if_neg hlow]
  exact (congrArg _ hmagnitude).trans x.ofMagnitude_magnitude

end

/-! ### Writing -/

/-- The step of a grid of whole numbers in which `n` lies, in quarters of `u`. -/
theorem grid_step (n : Nat) {g u : Nat} (hg : 0 < g) (hu : 0 < u) :
    4 * n * u / (4 * g * u) = n / g ∧ 4 * n * u = n / g * (4 * g * u) + 4 * (n % g) * u ∧
      4 * (n % g) * u + 4 * u ≤ 4 * g * u := by
  have hmod : n % g < g := Nat.mod_lt n hg
  refine ⟨?_, ?_, ?_⟩
  · rw [Nat.mul_comm 4 n, Nat.mul_comm 4 g, Nat.mul_assoc, Nat.mul_assoc, Nat.mul_div_mul_right _ _ (by omega)]
  · conv_lhs => rw [← Nat.div_add_mod n g]
    ring
  · have hle := Nat.mul_le_mul_right (4 * u) hmod
    linarith

section

variable {x : Single} {n : Nat} (h : x.HasAbs n) (hbound : n < 2 ^ 24) (hn : 0 < n)
include h hbound hn

/-- On a grid of whole numbers only the number itself is near enough. -/
theorem gridPoint_of_hasAbs {places : Nat} (hplaces : places ≤ 38) :
    x.gridPoint places =
      if 10 ^ (38 - places) ∣ n then some ⟨n / 10 ^ (38 - places), places⟩ else none := by
  -- All lengths in units of which four times `u` make one: the number is `4 * n * u`, and the step of the grid is
  -- `4 * g * u`. The interval reaches less than `4 * u` to either side.
  have hg : 10 ^ 38 = 10 ^ places * 10 ^ (38 - places) := by rw [← Nat.pow_add, Nat.add_sub_cancel' hplaces]
  have hunit : 2 ^ x.scale * 10 ^ places ≤ 2 ^ 149 * 10 ^ places :=
    Nat.mul_le_mul_right _ (Nat.pow_le_pow_right (by decide) (scale_le_of_hasAbs h hn hbound))
  have hpos : 0 < 2 ^ x.scale * 10 ^ places := by positivity
  have hvalue : 4 * x.significand * (2 ^ x.scale * 10 ^ places) = 4 * n * (2 ^ 149 * 10 ^ places) := by
    rw [Nat.mul_assoc, ← Nat.mul_assoc x.significand, h]
    ring
  have hgrid : 4 * 2 ^ 149 * 10 ^ 38 = 4 * 10 ^ (38 - places) * (2 ^ 149 * 10 ^ places) := by
    rw [hg]
    ring
  unfold gridPoint
  simp only [Nat.pow_eq, Nat.add_mul, Nat.sub_mul, ite_mul]
  rw [hvalue, hgrid]
  generalize 2 ^ x.scale * 10 ^ places = unit at *
  generalize 2 ^ 149 * 10 ^ places = u at *
  generalize hgdef : 10 ^ (38 - places) = g at *
  obtain ⟨hdiv, hsplit, hstep⟩ := grid_step n (hgdef ▸ by positivity : 0 < g) (by omega : 0 < u)
  rw [hdiv]
  generalize n / g * (4 * g * u) = below at *
  generalize hlow : (if x.significand = 2 ^ 23 ∧ 0 < x.scale then 4 * n * u - 1 * unit else 4 * n * u - 2 * unit) = low
  have hinside : 4 * n * u ≤ low + 2 * unit ∧ low < 4 * n * u := by
    have hnu : 4 * u ≤ 4 * n * u := Nat.mul_le_mul_right u (by omega)
    rw [← hlow]
    split <;> omega
  have habove : (if x.significand % 2 = 0 then decide (below + 1 * (4 * g * u) ≤ 4 * n * u + 2 * unit)
      else decide (below + 1 * (4 * g * u) < 4 * n * u + 2 * unit)) = false := by
    split <;> rw [decide_eq_false_iff_not] <;> omega
  rw [habove]
  by_cases hdvd : g ∣ n
  · have hbelow : (if x.significand % 2 = 0 then decide (low ≤ below) else decide (low < below)) = true := by
      rw [Nat.mod_eq_zero_of_dvd hdvd] at hsplit
      split <;> rw [decide_eq_true_eq] <;> omega
    rw [hbelow, if_pos hdvd]
  · have hbelow : (if x.significand % 2 = 0 then decide (low ≤ below) else decide (low < below)) = false := by
      have hrest : 4 * u ≤ 4 * (n % g) * u :=
        Nat.mul_le_mul_right u (by have := Nat.pos_of_ne_zero fun h => hdvd (Nat.dvd_of_mod_eq_zero h); omega)
      split <;> rw [decide_eq_false_iff_not] <;> omega
    rw [hbelow, if_neg hdvd]

theorem text_shortest_of_hasAbs : x.shortest.text = Nat.repr n := by
  obtain ⟨d, hd⟩ : ∃ d, (List.range 39).findSome? x.gridPoint = some d := by
    refine Option.isSome_iff_exists.mp (List.findSome?_isSome_iff.mpr ⟨38, by simp, ?_⟩)
    rw [gridPoint_of_hasAbs h hbound hn (Nat.le_refl 38)]
    simp
  obtain ⟨places, hplaces, hpoint⟩ := List.exists_of_findSome?_eq_some hd
  have hle : places ≤ 38 := by simpa [Nat.lt_succ_iff] using hplaces
  rw [gridPoint_of_hasAbs h hbound hn hle] at hpoint
  split at hpoint
  · next hdvd =>
    obtain rfl := Option.some.inj hpoint
    have hrange : List.range (maxPlaces + 1) = List.range 39 ++ (List.range 149).map (39 + ·) := List.range_add
    rw [shortest, hrange, List.findSome?_append, hd, Option.some_or, Option.getD_some, Decimal.text, if_pos hle,
      Nat.pow_eq, Nat.div_mul_cancel hdvd]
  · cases hpoint

end

/-- **The text of a small whole number is that of its digits**, behind a hyphen if it is negative. -/
theorem text_of_hasAbs {x : Single} {n : Nat} (h : x.HasAbs n) (hbound : n < 2 ^ 24) :
    x.text = (if x.isNegative then "-" else "") ++ Nat.repr n := by
  rcases Nat.eq_zero_or_pos n with hn | hn
  · have hmagnitude := magnitude_eq_zero_of_hasAbs h hn
    have hnan : x.isNaN = false := by simp [isNaN, hmagnitude]
    have hinfinite : x.isInfinite = false := by
      rw [isInfinite, hmagnitude]
      decide
    have hzero : x.isZero = true := by simp [isZero, hmagnitude]
    subst hn
    simp [text, hnan, hinfinite, hzero]
    rfl
  · have hlt := magnitude_lt_infinityBits h hn hbound
    have hnan : x.isNaN = false := by simpa [isNaN] using hlt.le
    have hinfinite : x.isInfinite = false := by simpa [isInfinite] using hlt.ne
    have hzero : x.isZero = false := by
      have hlow := (significand_of_hasAbs h hn).1
      rw [isZero, beq_eq_false_iff_ne, magnitude_eq]
      omega
    simp [text, hnan, hinfinite, hzero, text_shortest_of_hasAbs h hbound hn]

end Single
end CssSelector
