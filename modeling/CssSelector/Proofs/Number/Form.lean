import CssSelector.Number.Numeral
import Mathlib.Computability.RegularExpressions
import Mathlib.Tactic.IntervalCases

/-!
The form of a number, and the numerals that have it. Main statement: `mem_number`.
-/

namespace CssSelector

/-! ### Forms of text -/

namespace Form

open RegularExpression (char)

/-- One code point out of some. -/
def oneOf (cs : List Char) : RegularExpression Char := (cs.map char).sum

/-- A text of the form, or nothing. -/
def optional (r : RegularExpression Char) : RegularExpression Char := 1 + r

def sign : RegularExpression Char := oneOf ['+', '-']

def digit : RegularExpression Char := oneOf ['0', '1', '2', '3', '4', '5', '6', '7', '8', '9']

/-- Decimal digits, one at least. -/
def digits : RegularExpression Char := digit * digit.star

/-- Digits with or without a fraction, or a fraction alone. -/
def mantissa : RegularExpression Char := digits * optional (char '.' * digits) + char '.' * digits

def exponent : RegularExpression Char := oneOf ['e', 'E'] * optional sign * digits

/-- The form of a number: `[+-]? ([0-9]+ (\.[0-9]+)? | \.[0-9]+) ([eE] [+-]? [0-9]+)?`. -/
def number : RegularExpression Char := optional sign * mantissa * optional exponent

/-- The longest beginning of the text `cs` that has the form `r`. -/
structure Longest (r : RegularExpression Char) (cs t : List Char) : Prop where
  isPrefix : t <+: cs
  isMatch : t ∈ r.matches'
  length_le : ∀ u ∈ r.matches', u <+: cs → u.length ≤ t.length

theorem mem_oneOf {cs t : List Char} : t ∈ (oneOf cs).matches' ↔ ∃ c ∈ cs, [c] = t := by
  induction cs with
  | nil => exact ⟨fun h => absurd h (Language.notMem_zero t), by simp⟩
  | cons c cs ih =>
    calc t ∈ (oneOf (c :: cs)).matches'
      _ ↔ t ∈ (char c + oneOf cs).matches' := by rw [oneOf, List.map_cons, List.sum_cons, oneOf]
      _ ↔ t = [c] ∨ ∃ d ∈ cs, [d] = t := or_congr .rfl ih
      _ ↔ ∃ d ∈ c :: cs, [d] = t := by rw [List.exists_mem_cons_iff, eq_comm]

theorem mem_optional {r : RegularExpression Char} {t : List Char} :
    t ∈ (optional r).matches' ↔ t = [] ∨ t ∈ r.matches' := by
  rw [optional, RegularExpression.matches'_add, Language.mem_add, RegularExpression.matches'_epsilon, Language.mem_one]

theorem mem_mul {r s : RegularExpression Char} {t : List Char} :
    t ∈ (r * s).matches' ↔ ∃ u ∈ r.matches', ∃ v ∈ s.matches', u ++ v = t := by
  rw [RegularExpression.matches'_mul, Language.mem_mul]

theorem mem_digit {t : List Char} : t ∈ digit.matches' ↔ ∃ c : Char, c.isDigit ∧ [c] = t := by
  have hlist (c : Char) : c ∈ ['0', '1', '2', '3', '4', '5', '6', '7', '8', '9'] ↔ c.isDigit := by
    constructor
    · intro hc
      have hall : ['0', '1', '2', '3', '4', '5', '6', '7', '8', '9'].all Char.isDigit := by decide
      exact List.all_eq_true.mp hall c hc
    · intro hc
      obtain ⟨hlow, hhigh⟩ : 48 ≤ c.toNat ∧ c.toNat ≤ 57 := Char.isDigit_iff_toNat.mp hc
      rw [← Char.ofNat_toNat c]
      interval_cases c.toNat <;> decide
  simp only [digit, mem_oneOf, hlist]

theorem mem_digits {t : List Char} : t ∈ digits.matches' ↔ t ≠ [] ∧ ∀ c ∈ t, c.isDigit := by
  rw [digits, mem_mul, RegularExpression.matches'_star]
  constructor
  · rintro ⟨u, hu, v, hv, rfl⟩
    obtain ⟨c, hc, rfl⟩ := mem_digit.mp hu
    obtain ⟨parts, rfl, hparts⟩ := Language.mem_kstar.mp hv
    refine ⟨by simp, List.forall_mem_cons.mpr ⟨hc, fun d hd => ?_⟩⟩
    obtain ⟨part, hpart, hd⟩ := List.mem_flatten.mp hd
    obtain ⟨e, he, rfl⟩ := mem_digit.mp (hparts part hpart)
    rwa [List.mem_singleton.mp hd]
  · rintro ⟨hne, hdigits⟩
    obtain ⟨c, cs, rfl⟩ := List.exists_cons_of_ne_nil hne
    obtain ⟨hc, hcs⟩ := List.forall_mem_cons.mp hdigits
    refine ⟨[c], mem_digit.mpr ⟨c, hc, rfl⟩, cs, Language.mem_kstar.mpr ⟨cs.map ([·]), ?_, ?_⟩, rfl⟩
    · rw [← List.flatMap_def, List.flatMap_singleton']
    · intro part hpart
      obtain ⟨d, hd, rfl⟩ := List.mem_map.mp hpart
      exact mem_digit.mpr ⟨d, hcs d hd, rfl⟩

theorem mem_sign {t : List Char} :
    t ∈ (optional sign).matches' ↔ ∃ s : Option Char, (∀ c ∈ s, c = '+' ∨ c = '-') ∧ s.toList = t := by
  rw [mem_optional, sign, mem_oneOf]
  constructor
  · rintro (rfl | ⟨c, hc, rfl⟩)
    · exact ⟨none, by simp, rfl⟩
    · exact ⟨some c, by simpa using hc, rfl⟩
  · rintro ⟨_ | c, hs, rfl⟩
    · exact .inl rfl
    · exact .inr ⟨c, by simpa using hs c rfl, rfl⟩

end Form

/-! ### Numerals -/

/-- An exponent that has the form of one. -/
structure Exponent.WellFormed (e : Exponent) : Prop where
  mark : e.mark = 'e' ∨ e.mark = 'E'
  sign : ∀ c ∈ e.sign, c = '+' ∨ c = '-'
  ne_nil : e.digits ≠ []
  digits : ∀ c ∈ e.digits, c.isDigit

namespace Numeral

/-- A numeral that has the form of one. -/
structure WellFormed (n : Numeral) : Prop where
  sign : ∀ c ∈ n.sign, c = '+' ∨ c = '-'
  whole : ∀ c ∈ n.whole, c.isDigit
  fraction : ∀ c ∈ n.fraction, c.isDigit
  ne_nil : n.whole ≠ [] ∨ n.fraction ≠ []
  exponent : ∀ e ∈ n.exponent, e.WellFormed

/-- A fraction with the point before it. -/
def fractionText (fraction : List Char) : List Char := if fraction = [] then [] else '.' :: fraction

theorem text_eq (n : Numeral) :
    n.text = n.sign.toList ++ (n.whole ++ (fractionText n.fraction ++ (n.exponent.map Exponent.text).getD [])) := by
  rw [← List.append_assoc, ← List.append_assoc]
  rfl

end Numeral

namespace Form

open RegularExpression (char)

/-- A point with digits behind it. -/
theorem mem_point {t : List Char} :
    t ∈ (char '.' * digits).matches' ↔ ∃ f : List Char, f ≠ [] ∧ (∀ c ∈ f, c.isDigit) ∧ '.' :: f = t := by
  rw [mem_mul]
  constructor
  · rintro ⟨_, rfl, f, hf, rfl⟩
    obtain ⟨hne, hf⟩ := mem_digits.mp hf
    exact ⟨f, hne, hf, rfl⟩
  · rintro ⟨f, hne, hf, rfl⟩
    exact ⟨['.'], rfl, f, mem_digits.mpr ⟨hne, hf⟩, rfl⟩

theorem mem_mantissa {t : List Char} :
    t ∈ mantissa.matches' ↔ ∃ w f : List Char, (∀ c ∈ w, c.isDigit) ∧ (∀ c ∈ f, c.isDigit) ∧ (w ≠ [] ∨ f ≠ []) ∧
      w ++ Numeral.fractionText f = t := by
  rw [mantissa, RegularExpression.matches'_add, Language.mem_add, mem_point, mem_mul]
  constructor
  · rintro (⟨w, hw, u, hu, rfl⟩ | ⟨f, hne, hf, rfl⟩)
    · obtain ⟨hne, hw⟩ := mem_digits.mp hw
      rcases mem_optional.mp hu with rfl | hu
      · exact ⟨w, [], hw, by simp, .inl hne, rfl⟩
      · obtain ⟨f, hfne, hf, rfl⟩ := mem_point.mp hu
        exact ⟨w, f, hw, hf, .inl hne, by rw [Numeral.fractionText, if_neg hfne]⟩
    · exact ⟨[], f, by simp, hf, .inr hne, by rw [Numeral.fractionText, if_neg hne, List.nil_append]⟩
  · rintro ⟨w, f, hw, hf, hne, rfl⟩
    by_cases hfne : f = []
    · subst hfne
      have hwne : w ≠ [] := by simpa using hne
      exact .inl ⟨w, mem_digits.mpr ⟨hwne, hw⟩, [], mem_optional.mpr (.inl rfl), rfl⟩
    · have hpoint : Numeral.fractionText f ∈ (char '.' * digits).matches' :=
        mem_point.mpr ⟨f, hfne, hf, by rw [Numeral.fractionText, if_neg hfne]⟩
      by_cases hwne : w = []
      · subst hwne
        exact .inr (mem_point.mp hpoint)
      · exact .inl ⟨w, mem_digits.mpr ⟨hwne, hw⟩, _, mem_optional.mpr (.inr hpoint), rfl⟩

theorem mem_exponent {t : List Char} :
    t ∈ (optional exponent).matches' ↔
      ∃ e : Option Exponent, (∀ x ∈ e, x.WellFormed) ∧ (e.map Exponent.text).getD [] = t := by
  rw [mem_optional, exponent, mem_mul]
  constructor
  · rintro (rfl | ⟨u, hu, ds, hds, rfl⟩)
    · exact ⟨none, by simp, rfl⟩
    · obtain ⟨m, hm, v, hv, rfl⟩ := mem_mul.mp hu
      obtain ⟨c, hc, rfl⟩ := mem_oneOf.mp hm
      obtain ⟨s, hs, rfl⟩ := mem_sign.mp hv
      obtain ⟨hne, hds⟩ := mem_digits.mp hds
      refine ⟨some ⟨c, s, ds⟩, fun x hx => ?_, by simp [Exponent.text]⟩
      obtain rfl := Option.some.inj hx
      exact ⟨by simpa using hc, hs, hne, hds⟩
  · rintro ⟨_ | e, he, rfl⟩
    · exact .inl rfl
    · obtain ⟨hmark, hsign, hne, hdigits⟩ := he e rfl
      refine .inr ⟨e.mark :: e.sign.toList, mem_mul.mpr ⟨[e.mark], mem_oneOf.mpr ⟨e.mark, by simpa using hmark, rfl⟩, _,
        mem_sign.mpr ⟨e.sign, hsign, rfl⟩, rfl⟩, e.digits, mem_digits.mpr ⟨hne, hdigits⟩, rfl⟩

/-- A text has the form of a number if it is the text of a numeral that has the form of one. -/
theorem mem_number {t : List Char} : t ∈ number.matches' ↔ ∃ n : Numeral, n.WellFormed ∧ n.text = t := by
  rw [number, mem_mul]
  constructor
  · rintro ⟨u, hu, v, hv, rfl⟩
    obtain ⟨a, ha, b, hb, rfl⟩ := mem_mul.mp hu
    obtain ⟨s, hs, rfl⟩ := mem_sign.mp ha
    obtain ⟨w, f, hw, hf, hne, rfl⟩ := mem_mantissa.mp hb
    obtain ⟨e, he, rfl⟩ := mem_exponent.mp hv
    exact ⟨⟨s, w, f, e⟩, ⟨hs, hw, hf, hne, he⟩, by rw [Numeral.text_eq, List.append_assoc, List.append_assoc]⟩
  · rintro ⟨n, ⟨hs, hw, hf, hne, he⟩, rfl⟩
    refine ⟨_, mem_mul.mpr ⟨_, mem_sign.mpr ⟨n.sign, hs, rfl⟩, _, mem_mantissa.mpr ⟨_, _, hw, hf, hne, rfl⟩, rfl⟩, _,
      mem_exponent.mpr ⟨n.exponent, he, rfl⟩, ?_⟩
    rw [Numeral.text_eq, List.append_assoc, List.append_assoc]

end Form

end CssSelector
