import CssSelector.Proofs.Token.Quoting
import Mathlib.Data.List.Forall2
import Mathlib.Tactic.FinCases

/-!
Text that is written in hexadecimal escapes. An escape takes six digits and a space behind them, which is enough for every
code point; but zero and the last code point of all are never meant by an escape. Main statement:
`ofString_hexEscapes`.
-/

namespace CssSelector

open CodePoint

namespace Escape

/-! ### Hexadecimal digits -/

/-- A digit counts the same in either letter case. -/
theorem hexValue_of_toLower {c : Char} {m : Nat} (hm : m < 16) (h : c.toLower = m.digitChar) :
    isHexDigit c ∧ hexValue c = m := by
  have hlower : ∀ m < 16, isHexDigit m.digitChar ∧ hexValue m.digitChar = m := by decide
  have hcapital : ∀ m < 16, 65 ≤ m.digitChar.toNat - 32 →
      isHexDigit (.ofNat (m.digitChar.toNat - 32)) ∧ hexValue (.ofNat (m.digitChar.toNat - 32)) = m := by decide
  rcases toLower_cases c with hc | ⟨hge, -, hc⟩
  · rw [← hc, h]
    exact hlower m hm
  · rw [h] at hc
    have hcode : c.toNat = m.digitChar.toNat - 32 := by omega
    rw [← Char.ofNat_toNat c, hcode]
    exact hcapital m hm (hcode ▸ hge)

theorem hexNumber_append_singleton (ds : List Char) (d : Char) :
    hexNumber (ds ++ [d]) = 16 * hexNumber ds + hexValue d := by
  rw [hexNumber, List.foldl_append]
  rfl

/-- The digits of a number, in either letter case, give the number. -/
theorem hexNumber_of_toDigits {digits : List Char} {n : Nat} (h : digits.map Char.toLower = Nat.toDigits 16 n) :
    (∀ c ∈ digits, isHexDigit c) ∧ hexNumber digits = n := by
  induction n using Nat.strong_induction_on generalizing digits with
  | _ n ih =>
    rw [Nat.toDigits_eq_if (by decide)] at h
    split at h
    · next hn =>
      obtain ⟨c, rfl, hc⟩ := List.map_eq_singleton_iff.mp h
      obtain ⟨hdigit, hvalue⟩ := hexValue_of_toLower hn hc
      refine ⟨fun d hd => List.mem_singleton.mp hd ▸ hdigit, ?_⟩
      rw [← List.nil_append [c], hexNumber_append_singleton, hvalue]
      exact Nat.zero_add n
    · next hn =>
      obtain ⟨ds, last, rfl, hds, hlast⟩ := List.map_eq_append_iff.mp h
      obtain ⟨c, rfl, hc⟩ := List.map_eq_singleton_iff.mp hlast
      obtain ⟨hdigits, hnumber⟩ := ih (n / 16) (by omega) hds
      obtain ⟨hdigit, hvalue⟩ := hexValue_of_toLower (Nat.mod_lt n (by decide)) hc
      refine ⟨fun d hd => ?_, ?_⟩
      · rcases List.mem_append.mp hd with hd | hd
        · exact hdigits d hd
        · exact List.mem_singleton.mp hd ▸ hdigit
      · rw [hexNumber_append_singleton, hnumber, hvalue]
        exact Nat.div_add_mod n 16

theorem isValidChar_toNat (c : Char) : c.toNat.isValidChar := c.valid

/-- Six digits are enough. -/
theorem length_toDigits_le (c : Char) : (Nat.toDigits 16 c.toNat).length ≤ 6 := by
  rw [Nat.length_toDigits_le_iff (by decide) (by decide)]
  have hvalid := isValidChar_toNat c
  unfold Nat.isValidChar at hvalid
  omega

/-! ### Escapes -/

/-- A code point written as an escape: a backslash, its number in hexadecimal digits of either letter case, and a
space. -/
def Spells (c : Char) (cs : List Char) : Prop :=
  ∃ digits : List Char, cs = '\\' :: (digits ++ [' ']) ∧ digits.map Char.toLower = Nat.toDigits 16 c.toNat

/-- Of the numbers of code points, only the first and the last do not mean what they are the number of. -/
theorem ofNumber_toNat_eq_self_iff (c : Char) : ofNumber c.toNat = c ↔ c.toNat ≠ 0 ∧ c.toNat ≠ 0x10ffff := by
  have hvalid := isValidChar_toNat c
  have hbound : c.toNat ≤ 0x10ffff := by
    unfold Nat.isValidChar at hvalid
    omega
  unfold ofNumber
  split
  · next h =>
    have hlost : c.toNat = 0 ∨ c.toNat = 0x10ffff := by
      rcases h with h | h | h
      · exact .inl h
      · exact .inr (Nat.le_antisymm hbound h)
      · exact absurd hvalid h
    constructor
    · intro hc
      rw [← hc] at hlost
      exact absurd hlost (by decide)
    · rintro ⟨hzero, hlast⟩
      exact absurd hlost (not_or.mpr ⟨hzero, hlast⟩)
  · next h =>
    obtain ⟨hzero, hlast, -⟩ := not_or.mp h |>.imp_right not_or.mp
    exact ⟨fun _ => ⟨hzero, by omega⟩, fun _ => Char.ofNat_toNat c⟩

theorem hexDigits_append {digits : List Char} (h : ∀ c ∈ digits, isHexDigit c) (hlength : digits.length ≤ 6)
    {d : Char} (hd : isHexDigit d = false) (rest : List Char) : hexDigits (digits ++ d :: rest) = digits := by
  rw [hexDigits, List.take_append, List.take_of_length_le hlength, List.takeWhile_append_of_pos h]
  cases 6 - digits.length with
  | zero => exact List.append_nil digits
  | succ n => rw [List.take_succ_cons, List.takeWhile_cons_of_neg (by simp [hd]), List.append_nil]

/-- All digits of an escape are read, and the space behind them with them. -/
theorem Spells.read {c : Char} {cs : List Char} (h : Spells c cs) (rest : List Char) :
    ∃ d ds, cs ++ rest = '\\' :: d :: ds ∧ d ≠ '\n' ∧ Escape.read (d :: ds) = (ofNumber c.toNat, rest) := by
  obtain ⟨digits, rfl, hdigits⟩ := h
  obtain ⟨hhex, hnumber⟩ := hexNumber_of_toDigits hdigits
  have hlength : digits.length ≤ 6 := by
    rw [← List.length_map Char.toLower, hdigits]
    exact length_toDigits_le c
  obtain _ | ⟨d, ds⟩ := digits
  · exact absurd hdigits.symm Nat.toDigits_ne_nil
  have hd := hhex d (List.mem_cons_self ..)
  have htext : (d :: ds) ++ ' ' :: rest = d :: (ds ++ ' ' :: rest) := rfl
  refine ⟨d, ds ++ ' ' :: rest, by simp, ?_, ?_⟩
  · rintro rfl
    exact absurd hd (by decide)
  · rw [Escape.read, if_pos hd, ← htext, hexDigits_append hhex hlength (by decide)]
    dsimp only
    rw [hnumber, List.drop_left]
    rfl

theorem starts_of_ne_feed {d : Char} (hd : d ≠ '\n') (ds : List Char) : starts ('\\' :: d :: ds) := by
  unfold starts
  split
  · simp_all
  · rfl
  · simp_all

theorem isLost_of_isHexDigit {c : Char} (h : isHexDigit c) : isLost c = false := by
  by_contra hlost
  have hc : c ∈ ['\n', '\r', '\x0c', '\x00'] := by
    rwa [isLost, Bool.not_eq_false, List.contains_iff_mem] at hlost
  fin_cases hc <;> exact absurd h (by decide)

theorem Spells.isLost {c : Char} {cs : List Char} (h : Spells c cs) : ∀ d ∈ cs, isLost d = false := by
  obtain ⟨digits, rfl, hdigits⟩ := h
  intro d hd
  rw [List.mem_cons, List.mem_append, List.mem_singleton] at hd
  rcases hd with rfl | hd | rfl
  · rfl
  · exact isLost_of_isHexDigit ((hexNumber_of_toDigits hdigits).1 d hd)
  · rfl

end Escape

/-! ### Texts of escapes -/

section

variable {cs : List Char} {pieces : List (List Char)} (h : List.Forall₂ Escape.Spells cs pieces)
include h

theorem Escape.isLost_of_mem_flatten : ∀ d ∈ pieces.flatten, isLost d = false := by
  induction h with
  | nil => simp
  | cons hc _ ih =>
    intro d hd
    rcases List.mem_append.mp hd with hd | hd
    · exact hc.isLost d hd
    · exact ih d hd

/-- A name is made of the code points that are meant. -/
theorem Name.read_hexEscapes : read pieces.flatten = (cs.map fun c => Escape.ofNumber c.toNat, []) := by
  induction h with
  | nil => rw [List.flatten_nil, read, List.map_nil]
  | @cons c piece cs pieces hc _ ih =>
    obtain ⟨d, ds, htext, hd, hread⟩ := hc.read pieces.flatten
    have hstarts := Escape.starts_of_ne_feed hd ds
    rw [List.flatten_cons, htext, Name.read, if_neg (by decide), if_pos hstarts, hread]
    simp only [ih, List.map_cons]

/-- A string is made of the code points that are meant. -/
theorem scanString_hexEscapes (rest : List Char) :
    scanString '"' (pieces.flatten ++ '"' :: rest) = (true, cs.map fun c => Escape.ofNumber c.toNat, rest) := by
  induction h with
  | nil => exact TokenKind.scanString_end '"' rest
  | @cons c piece cs pieces hc _ ih =>
    obtain ⟨d, ds, htext, hd, hread⟩ := hc.read (pieces.flatten ++ '"' :: rest)
    rw [List.flatten_cons, List.append_assoc, htext, scanString.eq_def]
    simp only [if_neg hd, hread, ih]
    rfl

end

namespace TokenKind

/-- A text that begins with an escape begins with a name. -/
theorem scan_escape {d : Char} (hd : d ≠ '\n') (ds : List Char) :
    scan ('\\' :: d :: ds) = scanNameLike ('\\' :: d :: ds) := by
  have hstarts : Name.starts ('\\' :: d :: ds) := by
    simp [Name.starts, Escape.starts_of_ne_feed hd ds]
  rw [scan_of_ne_slash (by decide), if_neg (by decide), if_neg (by decide), if_neg (by decide), if_neg (by decide),
    if_neg, if_pos hstarts]
  rw [Numeral.starts, if_neg (by decide), Numeral.startsUnsigned_cons (by decide)]
  decide

theorem ofString_name_hexEscapes {c : Char} {cs : List Char} {pieces : List (List Char)}
    (h : List.Forall₂ Escape.Spells (c :: cs) pieces) : ofString (String.ofList pieces.flatten) =
      [ident (String.ofList ((c :: cs).map fun c => Escape.ofNumber c.toNat)), eof] := by
  have hread := Name.read_hexEscapes h
  rw [ofString_eq, String.toList_ofList, Text.preprocess_eq_self (Escape.isLost_of_mem_flatten h)]
  cases h with
  | @cons _ piece _ pieces hc hcs =>
    obtain ⟨d, ds, htext, hd, -⟩ := hc.read pieces.flatten
    rw [List.flatten_cons, htext] at hread ⊢
    have hscan : scan ('\\' :: d :: ds) =
        (ident (String.ofList ((c :: cs).map fun c => Escape.ofNumber c.toNat)), []) := by
      rw [scan_escape hd, scanNameLike, hread]
      rfl
    rw [scanAll_of_scan hscan (by simp), scanAll]

theorem ofString_string_hexEscapes {cs : List Char} {pieces : List (List Char)}
    (h : List.Forall₂ Escape.Spells cs pieces) : ofString (String.ofList ('"' :: (pieces.flatten ++ ['"']))) =
      [quotedString (String.ofList (cs.map fun c => Escape.ofNumber c.toNat)), eof] := by
  have hlost : ∀ d ∈ '"' :: (pieces.flatten ++ ['"']), isLost d = false := by
    intro d hd
    rw [List.mem_cons, List.mem_append, List.mem_singleton] at hd
    rcases hd with rfl | hd | rfl
    · rfl
    · exact Escape.isLost_of_mem_flatten h d hd
    · rfl
  have hscan : scan ('"' :: (pieces.flatten ++ ['"'])) =
      (quotedString (String.ofList (cs.map fun c => Escape.ofNumber c.toNat)), []) := by
    rw [scan_of_ne_slash (by decide), if_neg (by decide), if_pos (.inl rfl), scanQuoted, scanString_hexEscapes h]
    rfl
  rw [ofString_eq, String.toList_ofList, Text.preprocess_eq_self hlost, scanAll_of_scan hscan (by simp), scanAll]

/-- **Hexadecimal escapes are read as the name or the string that they spell**, unless there is U+0000 or U+10FFFF in
it. -/
theorem ofString_hexEscapes {s : String} (hs : s ≠ "") {pieces : List (List Char)}
    (h : List.Forall₂ Escape.Spells s.toList pieces) :
    (ofString (String.ofList pieces.flatten) = [ident s, eof] ↔ ∀ c ∈ s.toList, c.toNat ≠ 0 ∧ c.toNat ≠ 0x10ffff) ∧
      (ofString (String.ofList ('"' :: (pieces.flatten ++ ['"']))) = [quotedString s, eof] ↔
        ∀ c ∈ s.toList, c.toNat ≠ 0 ∧ c.toNat ≠ 0x10ffff) := by
  have hmeant : String.ofList (s.toList.map fun c => Escape.ofNumber c.toNat) = s ↔
      ∀ c ∈ s.toList, c.toNat ≠ 0 ∧ c.toNat ≠ 0x10ffff := by
    simp only [← Escape.ofNumber_toNat_eq_self_iff]
    rw [← String.toList_inj, String.toList_ofList]
    conv_lhs => rhs; rw [← List.map_id s.toList]
    exact List.map_inj_left
  obtain ⟨c, cs, hcs⟩ := List.exists_cons_of_ne_nil (l := s.toList) (by simpa using hs)
  have hname : ofString (String.ofList pieces.flatten) =
      [ident (String.ofList (s.toList.map fun c => Escape.ofNumber c.toNat)), eof] := by
    rw [hcs] at h ⊢
    exact ofString_name_hexEscapes h
  rw [hname, ofString_string_hexEscapes h, ← hmeant]
  simp

/-- The name `aZ` written as `\61 \5A ` is read back, as a name and as a string. -/
theorem ofString_hexEscapes_letters :
    "aZ" ≠ "" ∧ List.Forall₂ Escape.Spells "aZ".toList ["\\61 ".toList, "\\5A ".toList] ∧
      ofString "\\61 \\5A " = [ident "aZ", eof] ∧ ofString "\"\\61 \\5A \"" = [quotedString "aZ", eof] := by
  have h : List.Forall₂ Escape.Spells "aZ".toList ["\\61 ".toList, "\\5A ".toList] :=
    .cons ⟨['6', '1'], by decide, by decide⟩ (.cons ⟨['5', 'A'], by decide, by decide⟩ .nil)
  have hread := ofString_hexEscapes (s := "aZ") (by decide) h
  have hkept : ∀ c ∈ "aZ".toList, c.toNat ≠ 0 ∧ c.toNat ≠ 0x10ffff := by simp
  exact ⟨by decide, h, hread.1.mpr hkept, hread.2.mpr hkept⟩

end TokenKind
end CssSelector
