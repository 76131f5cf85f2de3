import CssSelector.Proofs.Number.Form
import CssSelector.Proofs.Token.Beginnings
import Mathlib.Tactic.TFAE

/-!
Numerals are read as far as they go. What is read is the longest beginning of the text that has the form of a number, so
the text of a number can always be made a number. Main statement: `scan_longest`.
-/

namespace CssSelector

/-! ### What is read is written -/

theorem Exponent.text_append_scan (cs : List Char) : ((scan cs).1.map text).getD [] ++ (scan cs).2 = cs := by
  fun_cases scan cs with
  | case3 c _ d ds _ => simp [text]
  | case4 c _ d ds _ _ => simp [text]
  | _ => rfl

/-- An exponent that is read has the form of one. -/
theorem Exponent.wellFormed_scan (cs : List Char) : ∀ e ∈ (scan cs).1, e.WellFormed := by
  have htake (ds : List Char) : ∀ c ∈ ds.takeWhile Char.isDigit, c.isDigit := fun c hc => List.mem_takeWhile_imp hc
  fun_cases scan cs with
  | case3 c hmark d ds hd =>
    rintro e ⟨⟩
    exact ⟨hmark, by simp, by simp [hd], htake _⟩
  | case4 c hmark d ds _ hsign =>
    rintro e ⟨⟩
    refine ⟨hmark, by simpa using hsign.1, ?_, htake _⟩
    obtain ⟨x, hx, hdigit⟩ := Option.any_eq_true _ _ |>.mp hsign.2
    obtain ⟨xs, rfl⟩ := List.head?_eq_some_iff.mp hx
    simp [hdigit]
  | _ => simp

namespace Numeral

theorem sign_append_scanSign (cs : List Char) : (scanSign cs).1.toList ++ (scanSign cs).2 = cs := by
  fun_cases scanSign cs <;> rfl

theorem isSign_of_mem_scanSign (cs : List Char) : ∀ c ∈ (scanSign cs).1, c = '+' ∨ c = '-' := by
  fun_cases scanSign cs with
  | case2 c cs hsign => simpa using hsign
  | _ => simp

theorem isDigit_of_mem_scanFraction (cs : List Char) : ∀ c ∈ (scanFraction cs).1, c.isDigit := by
  fun_cases scanFraction cs with
  | case1 => exact fun c hc => List.mem_takeWhile_imp hc
  | _ => simp

theorem fractionText_append_scanFraction (cs : List Char) :
    fractionText (scanFraction cs).1 ++ (scanFraction cs).2 = cs := by
  fun_cases scanFraction cs with
  | case1 cs h =>
    obtain ⟨c, hc, hdigit⟩ := Option.any_eq_true _ _ |>.mp h
    obtain ⟨ds, rfl⟩ := List.head?_eq_some_iff.mp hc
    simp [fractionText, hdigit]
  | _ => rfl

/-- Nothing is lost of a text that a numeral is read of. -/
theorem text_append_scan (cs : List Char) : (scan cs).1.text ++ (scan cs).2 = cs := by
  let ds := (scanSign cs).2
  let es := (scanFraction (ds.dropWhile Char.isDigit)).2
  calc (scan cs).1.text ++ (scan cs).2
    _ = (scanSign cs).1.toList ++ (ds.takeWhile Char.isDigit ++
        (fractionText (scanFraction (ds.dropWhile Char.isDigit)).1 ++
          (((Exponent.scan es).1.map Exponent.text).getD [] ++ (Exponent.scan es).2))) := by
      rw [text_eq, List.append_assoc, List.append_assoc, List.append_assoc]
      rfl
    _ = (scanSign cs).1.toList ++ (ds.takeWhile Char.isDigit ++
        (fractionText (scanFraction (ds.dropWhile Char.isDigit)).1 ++ es)) := by rw [Exponent.text_append_scan]
    _ = (scanSign cs).1.toList ++ (ds.takeWhile Char.isDigit ++ ds.dropWhile Char.isDigit) := by
      rw [fractionText_append_scanFraction]
    _ = (scanSign cs).1.toList ++ ds := by rw [List.takeWhile_append_dropWhile]
    _ = cs := sign_append_scanSign cs

/-- A text begins with a number if it does so behind the sign. -/
theorem starts_eq (cs : List Char) : starts cs = startsUnsigned (scanSign cs).2 := by
  cases cs with
  | nil => rfl
  | cons c cs =>
    rw [starts, scanSign]
    split <;> rfl

/-- Where a number begins behind the sign, there is a digit before the point or behind it. -/
theorem digits_of_startsUnsigned {cs : List Char} (h : startsUnsigned cs) :
    cs.takeWhile Char.isDigit ≠ [] ∨ (scanFraction (cs.dropWhile Char.isDigit)).1 ≠ [] := by
  cases cs with
  | nil => cases h
  | cons c cs =>
    by_cases hdot : c = '.'
    · subst hdot
      right
      have hdigits : cs.head?.any Char.isDigit := h
      obtain ⟨d, hd, hdigit⟩ := Option.any_eq_true _ _ |>.mp hdigits
      obtain ⟨ds, rfl⟩ := List.head?_eq_some_iff.mp hd
      rw [List.dropWhile_cons_of_neg (by decide), scanFraction, if_pos hdigits, List.takeWhile_cons_of_pos hdigit]
      exact List.cons_ne_nil d _
    · left
      rw [startsUnsigned_cons hdot] at h
      rw [List.takeWhile_cons_of_pos h]
      exact List.cons_ne_nil c _

/-- A numeral that is read has the form of one. -/
theorem wellFormed_scan {cs : List Char} (h : starts cs) : (scan cs).1.WellFormed := by
  constructor
  case sign => exact isSign_of_mem_scanSign cs
  case whole => exact fun c hc => List.mem_takeWhile_imp hc
  case fraction => exact isDigit_of_mem_scanFraction _
  case ne_nil =>
    rw [starts_eq] at h
    exact digits_of_startsUnsigned h
  case exponent => exact Exponent.wellFormed_scan _

/-! ### What is written is read -/

section

variable {w f : List Char} (hw : ∀ c ∈ w, c.isDigit) (hf : ∀ c ∈ f, c.isDigit)
include hw hf

theorem startsUnsigned_mantissa (hne : w ≠ [] ∨ f ≠ []) (z : List Char) :
    startsUnsigned (w ++ (fractionText f ++ z)) := by
  cases w with
  | cons c cs => exact startsUnsigned_of_isDigit rfl (hw c (List.mem_cons_self ..))
  | nil =>
    obtain ⟨d, ds, rfl⟩ := List.exists_cons_of_ne_nil (hne.resolve_left (not_not_intro rfl))
    have hd : d.isDigit := hf d (List.mem_cons_self ..)
    rw [fractionText, if_neg (List.cons_ne_nil d ds)]
    exact hd

/-- Digits and a fraction are read at least as far as they go. -/
theorem rest_mantissa_suffix (z : List Char) :
    (scanFraction ((w ++ (fractionText f ++ z)).dropWhile Char.isDigit)).2 <:+ z := by
  rw [List.dropWhile_append_of_pos hw]
  cases f with
  | nil => exact (scanFraction_suffix _).trans (List.dropWhile_suffix _)
  | cons d ds =>
    have hd : d.isDigit := hf d (List.mem_cons_self ..)
    rw [fractionText, if_neg (List.cons_ne_nil d ds), List.cons_append, List.dropWhile_cons_of_neg (by decide),
      scanFraction, if_pos (by simpa using hd), List.dropWhile_append_of_pos hf]
    exact List.dropWhile_suffix _

/-- Digits and a fraction are read as far as they go if nothing goes on with them. -/
theorem scan_mantissa {z : List Char} (hz : ∀ c ∈ z.head?, c.isDigit = false ∧ c ≠ '.') :
    (w ++ (fractionText f ++ z)).takeWhile Char.isDigit = w ∧
      scanFraction ((w ++ (fractionText f ++ z)).dropWhile Char.isDigit) = (f, z) := by
  have hdigit : ∀ c ∈ z.head?, c.isDigit = false := fun c hc => (hz c hc).1
  cases f with
  | nil =>
    have hnone : scanFraction z = ([], z) := by
      unfold scanFraction
      split
      · exact absurd rfl (hz '.' rfl).2
      · rfl
    exact ⟨takeWhile_isDigit_append hw hdigit, by rw [← hnone]; exact congrArg _ (dropWhile_isDigit_append hw hdigit)⟩
  | cons d ds =>
    have hd : d.isDigit := hf d (List.mem_cons_self ..)
    have hpoint : ∀ c ∈ ('.' :: (d :: ds ++ z)).head?, c.isDigit = false := by simp
    rw [fractionText, if_neg (List.cons_ne_nil d ds), List.cons_append, takeWhile_isDigit_append hw hpoint,
      dropWhile_isDigit_append hw hpoint, scanFraction, if_pos (by simpa using hd), takeWhile_isDigit_append hf hdigit,
      dropWhile_isDigit_append hf hdigit]
    exact ⟨rfl, rfl⟩

end

/-- A sign is read before a number. -/
theorem scanSign_append {s : Option Char} (hs : ∀ c ∈ s, c = '+' ∨ c = '-') {cs : List Char} (h : startsUnsigned cs) :
    scanSign (s.toList ++ cs) = (s, cs) := by
  cases s with
  | some c => rw [Option.toList_some, List.singleton_append, scanSign, if_pos (hs c rfl)]
  | none =>
    cases cs with
    | nil => rfl
    | cons c cs =>
      have hsign : ¬(c = '+' ∨ c = '-') := by
        rintro (rfl | rfl) <;> exact absurd h (by simp [startsUnsigned])
      rw [Option.toList_none, List.nil_append, scanSign, if_neg hsign]

end Numeral

namespace Exponent.WellFormed

variable {e : Exponent} (he : e.WellFormed) (rest : List Char)
include he

/-- The text of an exponent does not go on with digits or a fraction. -/
theorem head_text : ∀ c ∈ (e.text ++ rest).head?, c.isDigit = false ∧ c ≠ '.' := by
  intro c hc
  obtain rfl : e.mark = c := by simpa [text] using hc
  rcases he.mark with hmark | hmark <;> rw [hmark] <;> decide

/-- Of an exponent all digits are read. -/
theorem scan_text_append :
    scan (e.text ++ rest) =
      (some ⟨e.mark, e.sign, (e.digits ++ rest).takeWhile Char.isDigit⟩, rest.dropWhile Char.isDigit) := by
  obtain ⟨mark, sign, digits⟩ := e
  obtain ⟨hmark, hsign, hne, hdigits⟩ := he
  obtain ⟨d, ds, rfl⟩ := List.exists_cons_of_ne_nil hne
  have hd : d.isDigit := hdigits d (List.mem_cons_self ..)
  have hdrop : (d :: (ds ++ rest)).dropWhile Char.isDigit = rest.dropWhile Char.isDigit := by
    rw [← List.cons_append, List.dropWhile_append_of_pos hdigits]
  cases sign with
  | none =>
    have htext : text ⟨mark, none, d :: ds⟩ ++ rest = mark :: d :: (ds ++ rest) := rfl
    rw [htext, scan, if_pos hmark, if_pos hd, hdrop]
    rfl
  | some c =>
    have hc : c.isDigit = false := by rcases hsign c rfl with rfl | rfl <;> rfl
    have htext : text ⟨mark, some c, d :: ds⟩ ++ rest = mark :: c :: d :: (ds ++ rest) := rfl
    rw [htext, scan, if_pos hmark, if_neg (by simp [hc]), if_pos ⟨hsign c rfl, hd⟩, hdrop]
    rfl

end Exponent.WellFormed

namespace Numeral

section

variable {n : Numeral} (hn : n.WellFormed) (rest : List Char)
include hn

/-- The sign of a numeral is read, and what is left begins with a number. -/
theorem scanSign_text_append : ∃ z, z = (n.exponent.map Exponent.text).getD [] ++ rest ∧
    scanSign (n.text ++ rest) = (n.sign, n.whole ++ (fractionText n.fraction ++ z)) ∧
    startsUnsigned (n.whole ++ (fractionText n.fraction ++ z)) := by
  refine ⟨_, rfl, ?_, startsUnsigned_mantissa hn.whole hn.fraction hn.ne_nil _⟩
  rw [text_eq, List.append_assoc, List.append_assoc, List.append_assoc]
  exact scanSign_append hn.sign (startsUnsigned_mantissa hn.whole hn.fraction hn.ne_nil _)

theorem starts_text_append : starts (n.text ++ rest) := by
  obtain ⟨z, -, hsign, hunsigned⟩ := scanSign_text_append hn rest
  rw [starts_eq, hsign]
  exact hunsigned

/-- A numeral is read at least as far as it goes. -/
theorem rest_text_suffix : (scan (n.text ++ rest)).2 <:+ rest := by
  obtain ⟨z, hz, hsign, -⟩ := scanSign_text_append hn rest
  have hscan : (scan (n.text ++ rest)).2 =
      (Exponent.scan (scanFraction ((n.whole ++ (fractionText n.fraction ++ z)).dropWhile Char.isDigit)).2).2 := by
    rw [scan, hsign]
  rw [hscan]
  cases hexponent : n.exponent with
  | none =>
    obtain rfl : z = rest := by rw [hz, hexponent]; rfl
    exact (Exponent.scan_suffix _).trans (rest_mantissa_suffix hn.whole hn.fraction z)
  | some e =>
    obtain rfl : z = e.text ++ rest := by rw [hz, hexponent]; rfl
    have he := hn.exponent e hexponent
    rw [(scan_mantissa hn.whole hn.fraction (he.head_text rest)).2, he.scan_text_append]
    exact List.dropWhile_suffix _

/-- What is written of a numeral is read as the numeral if there is nothing more. -/
theorem scan_text : scan n.text = (n, []) := by
  obtain ⟨z, hz, hsign, -⟩ := scanSign_text_append hn []
  rw [List.append_nil] at hz hsign
  have hexponent : (∀ c ∈ z.head?, c.isDigit = false ∧ c ≠ '.') ∧ Exponent.scan z = (n.exponent, []) := by
    cases hexponent : n.exponent with
    | none =>
      obtain rfl : z = [] := by rw [hz, hexponent]; rfl
      exact ⟨by simp, rfl⟩
    | some e =>
      have he := hn.exponent e hexponent
      obtain rfl : z = e.text ++ [] := by rw [hz, hexponent, List.append_nil]; rfl
      refine ⟨he.head_text [], ?_⟩
      rw [he.scan_text_append, List.append_nil, List.takeWhile_eq_self_iff.mpr he.digits]
      rfl
  obtain ⟨hhead, hscan⟩ := hexponent
  obtain ⟨hwhole, hfraction⟩ := scan_mantissa hn.whole hn.fraction hhead
  rw [scan, hsign]
  dsimp only
  rw [hwhole, hfraction]
  dsimp only
  rw [hscan]

end

/-- The longest beginning of a text that has the form of a number is what is read of it as a numeral. -/
theorem longest_scan {cs : List Char} (h : starts cs) : Form.Longest Form.number cs (scan cs).1.text where
  isPrefix := ⟨_, text_append_scan cs⟩
  isMatch := Form.mem_number.mpr ⟨_, wellFormed_scan h, rfl⟩
  length_le := by
    rintro u hu ⟨rest, rfl⟩
    obtain ⟨n, hn, rfl⟩ := Form.mem_number.mp hu
    have hrest := (rest_text_suffix hn rest).length_le
    have hlength := congrArg List.length (text_append_scan (n.text ++ rest))
    rw [List.length_append, List.length_append] at hlength
    omega

/-- A text begins with a number if a beginning of it has the form of one. -/
theorem starts_iff_exists {cs : List Char} : starts cs ↔ ∃ t ∈ Form.number.matches', t <+: cs := by
  constructor
  · exact fun h => ⟨_, (longest_scan h).isMatch, (longest_scan h).isPrefix⟩
  · rintro ⟨t, ht, rest, rfl⟩
    obtain ⟨n, hn, rfl⟩ := Form.mem_number.mp ht
    exact starts_text_append hn rest

/-! ### Numbers of whole texts -/

/-- The number that a text writes, if it has the form of one from end to end. -/
def ofText? (t : List Char) : Option Single := if starts t ∧ (scan t).2 = [] then some (scan t).1.value else none

theorem ofText?_text {n : Numeral} (hn : n.WellFormed) : ofText? n.text = some n.value := by
  have hstarts : starts n.text := by
    rw [← List.append_nil n.text]
    exact starts_text_append hn []
  rw [ofText?, scan_text hn, if_pos ⟨hstarts, rfl⟩]

theorem isSome_ofText?_iff {t : List Char} : (ofText? t).isSome ↔ t ∈ Form.number.matches' := by
  constructor
  · intro h
    unfold ofText? at h
    split at h
    · next hwhole =>
      obtain ⟨hstarts, hrest⟩ := hwhole
      have htext := text_append_scan t
      rw [hrest, List.append_nil] at htext
      exact Form.mem_number.mpr ⟨_, wellFormed_scan hstarts, htext⟩
    · cases h
  · intro h
    obtain ⟨n, hn, rfl⟩ := Form.mem_number.mp h
    rw [ofText?_text hn]
    rfl

end Numeral

/-! ### Numeric tokens -/

namespace TokenKind

/-- **A numeric token takes the longest beginning of the text that has the form of a number**, and is read where there
is one. What is taken is never empty, it is taken as a whole, and it is a number to everything that makes numbers of
texts of this form; so a number never has to be made up. -/
theorem scan_longest (cs : List Char) :
    [scan cs = scanNumeric cs, (scan cs).1.value?.isSome, ∃ t ∈ Form.number.matches', t <+: cs].TFAE ∧
      (scan cs = scanNumeric cs →
        Form.Longest Form.number cs (Numeral.scan cs).1.text ∧ (Numeral.scan cs).1.text ≠ [] ∧
        cs = (Numeral.scan cs).1.text ++ (Numeral.scan cs).2 ∧
        (scan cs).1.value? = Numeral.ofText? (Numeral.scan cs).1.text ∧
        ∀ parse : List Char → Option Single, (∀ t ∈ Form.number.matches', (parse t).isSome) →
          (parse (Numeral.scan cs).1.text).isSome) := by
  have hvalue := (begins_scan cs).value
  have hstarts : (scan cs).1.value?.isSome → Numeral.starts cs := by
    intro h
    by_contra hnone
    rw [hvalue, if_neg hnone] at h
    cases h
  have hnumeric : scan cs = scanNumeric cs → (scan cs).1.value?.isSome := by
    intro h
    rw [h, value?_scanNumeric]
    rfl
  refine ⟨?_, fun h => ?_⟩
  · tfae_have 1 → 2 := hnumeric
    tfae_have 2 → 3 := fun h => Numeral.starts_iff_exists.mp (hstarts h)
    tfae_have 3 → 1 := fun h => scan_eq_scanNumeric (Numeral.starts_iff_exists.mpr h)
    tfae_finish
  · have hstarts := hstarts (hnumeric h)
    have hlongest := Numeral.longest_scan hstarts
    have hform := Numeral.wellFormed_scan hstarts
    refine ⟨hlongest, ?_, (Numeral.text_append_scan cs).symm, ?_, fun parse hparse => hparse _ hlongest.isMatch⟩
    · intro hnil
      have htext := hlongest.isMatch
      rw [hnil, ← Numeral.isSome_ofText?_iff] at htext
      cases htext
    · rw [h, value?_scanNumeric, Numeral.ofText?_text hform]

/-- The sign of an exponent belongs to the number, the unit behind it does not. -/
theorem scan_longest_exponent :
    scan "-1.5e+3em".toList = scanNumeric "-1.5e+3em".toList ∧
      (∀ t ∈ Form.number.matches', (Numeral.ofText? t).isSome) ∧
      Form.Longest Form.number "-1.5e+3em".toList "-1.5e+3".toList ∧ (Numeral.ofText? "-1.5e+3".toList).isSome := by
  have hscan : scan "-1.5e+3em".toList = scanNumeric "-1.5e+3em".toList := scan_eq_scanNumeric (by decide)
  have hparse : ∀ t ∈ Form.number.matches', (Numeral.ofText? t).isSome := fun _ ht => Numeral.isSome_ofText?_iff.mpr ht
  have htext : (Numeral.scan "-1.5e+3em".toList).1.text = "-1.5e+3".toList := by decide
  obtain ⟨hlongest, -, -, -, hsome⟩ := (scan_longest "-1.5e+3em".toList).2 hscan
  rw [htext] at hlongest hsome
  exact ⟨hscan, hparse, hlongest, hsome Numeral.ofText? hparse⟩

end TokenKind
end CssSelector
