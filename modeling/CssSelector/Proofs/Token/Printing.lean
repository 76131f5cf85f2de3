import CssSelector.Proofs.Number.Integers
import CssSelector.Proofs.Printing.Scanning
import CssSelector.Token.Printer

/-!
Tokens that are written are read back. What a token holds must be what a token can hold without escapes, its number must
be a whole one that is not too long, and what stands behind it must not go on with it. Main statement: `scan_text`.
-/

namespace CssSelector

open CodePoint

/-! ### Code points -/

namespace CodePoint

/-- A code point that stays as it is when a text is read. -/
def isKept (c : Char) : Bool := !(['\r', '\x0c', '\x00'].contains c)

theorem isLost_eq_false {c : Char} (h : isKept c) (hfeed : c ≠ '\n') : isLost c = false := by
  simp_all [isKept, isLost]

theorem isKept_of_isLost {c : Char} (h : isLost c = false) : isKept c := by
  simp_all [isKept, isLost]

theorem isKept_of_isNameChar {c : Char} (h : isNameChar c) : isKept c := isKept_of_isLost (isLost_of_isNameChar h)

end CodePoint

/-! ### Names -/

theorem Escape.starts_eq_false {cs : List Char} (h : ∀ c ∈ cs.head?, c ≠ '\\') : starts cs = false := by
  unfold starts
  split
  · exact absurd rfl (h _ rfl)
  · exact absurd rfl (h _ rfl)
  · rfl

namespace Name

/-- The text does not go on with a name. -/
def Stops (cs : List Char) : Prop := ∀ c ∈ cs.head?, isNameChar c = false ∧ c ≠ '\\'

section

variable {cs : List Char} (h : Stops cs)
include h

theorem starts_eq_false_of_stops : starts cs = false := by
  have hescape : Escape.starts cs = false := Escape.starts_eq_false fun c hc => (h c hc).2
  unfold starts
  split
  · exact absurd (h '-' rfl).1 (by decide)
  · rw [hescape, Bool.or_false]
    cases cs with
    | nil => rfl
    | cons c ds => exact (isNameChar_eq_false_iff.mp (h c rfl).1).1

theorem starts_hyphen_of_stops : starts ('-' :: cs) = false := by
  rw [starts, Escape.starts_eq_false fun c hc => (h c hc).2, Bool.or_false]
  cases cs with
  | nil => rfl
  | cons c ds =>
    obtain ⟨hstart, -, hdash⟩ := isNameChar_eq_false_iff.mp (h c rfl).1
    simp [hstart, hdash]

end

/-- Whether a name is an identifier is decided by the name. -/
theorem starts_append {cs rest : List Char} (h : ∀ c ∈ cs, isNameChar c) (hne : cs ≠ []) (hrest : Stops rest) :
    starts (cs ++ rest) = startsPlain cs := by
  obtain ⟨c, ds, rfl⟩ := List.exists_cons_of_ne_nil hne
  obtain ⟨hc, hds⟩ := List.forall_mem_cons.mp h
  have hslash {d : Char} (hd : isNameChar d) : d ≠ '\\' := ne_of_isNameChar hd (by decide)
  by_cases hdash : c = '-'
  · subst hdash
    cases ds with
    | nil => exact starts_hyphen_of_stops hrest
    | cons d ds =>
      have hescape : Escape.starts (d :: ds ++ rest) = false := by
        refine Escape.starts_eq_false fun e he => ?_
        obtain rfl : d = e := by simpa using he
        exact hslash (hds d (List.mem_cons_self ..))
      rw [List.cons_append, starts, hescape, Bool.or_false]
      rfl
  · have hescape : Escape.starts (c :: (ds ++ rest)) = false := by
      refine Escape.starts_eq_false fun e he => ?_
      obtain rfl : c = e := by simpa using he
      exact hslash hc
    unfold starts startsPlain
    split
    · simp_all
    · split
      · simp_all
      · rw [List.cons_append, hescape, Bool.or_false]
        rfl

end Name

/-! ### Comments -/

/-- A comment ends at its end, if that does not come earlier. -/
theorem scanComment_append {text : List Char} (h : ¬['*', '/'] <:+: text) (rest : List Char) :
    scanComment (text ++ '*' :: '/' :: rest) = (text, rest) := by
  induction text with
  | nil => rw [List.nil_append, scanComment]
  | cons c cs ih =>
    have hcs : ¬['*', '/'] <:+: cs := fun hin => h (hin.trans (List.suffix_cons c cs).isInfix)
    rw [List.cons_append, scanComment, ih hcs]
    rintro ds rfl hds
    obtain _ | ⟨d, ds'⟩ := cs
    · cases hds
    · obtain ⟨rfl, -⟩ := List.cons.inj hds
      exact h ⟨[], ds', rfl⟩

/-! ### Numerals -/

namespace Numeral

/-- The decimal digits of a number. -/
theorem isDigit_of_mem_toDigits {n : Nat} : ∀ c ∈ Nat.toDigits 10 n, c.isDigit :=
  fun _ hc => Nat.isDigit_of_mem_toDigits (by decide) (by decide) hc

theorem decimalNumber_toDigits (n : Nat) : decimalNumber (Nat.toDigits 10 n) = n :=
  (@Nat.ofDigitChars_eq_foldl 10 _ 0).symm.trans Nat.ofDigitChars_ten_toDigits

theorem exists_toDigits_cons (n : Nat) : ∃ d ds, Nat.toDigits 10 n = d :: ds ∧ d.isDigit := by
  obtain ⟨d, ds, h⟩ := List.exists_cons_of_ne_nil (Nat.toDigits_ne_nil (b := 10) (n := n))
  exact ⟨d, ds, h, isDigit_of_mem_toDigits d (by rw [h]; exact List.mem_cons_self ..)⟩

section

variable {digits rest : List Char} (hdigits : ∀ c ∈ digits, c.isDigit) (hrest : ∀ c ∈ rest.head?, c.isDigit = false)
include hdigits hrest

theorem takeWhile_isDigit_append : (digits ++ rest).takeWhile Char.isDigit = digits := by
  rw [List.takeWhile_append_of_pos hdigits]
  cases rest with
  | nil => exact List.append_nil digits
  | cons c cs => rw [List.takeWhile_cons_of_neg (by simp [hrest c rfl]), List.append_nil]

theorem dropWhile_isDigit_append : (digits ++ rest).dropWhile Char.isDigit = rest := by
  rw [List.dropWhile_append_of_pos hdigits]
  cases rest with
  | nil => rfl
  | cons c cs => rw [List.dropWhile_cons_of_neg (by simp [hrest c rfl])]

end

/-- The sign of a number that is written in digits. -/
def hyphen (negative : Bool) : List Char := if negative then ['-'] else []

theorem scanSign_hyphen (negative : Bool) {d : Char} (hd : d.isDigit) (cs : List Char) :
    scanSign (hyphen negative ++ d :: cs) = (if negative then some '-' else none, d :: cs) := by
  cases negative with
  | true => rfl
  | false =>
    have hplus : d ≠ '+' := by
      rintro rfl
      exact absurd hd (by decide)
    have hdash : d ≠ '-' := by
      rintro rfl
      exact absurd hd (by decide)
    rw [hyphen, if_neg (by decide), List.nil_append, scanSign, if_neg (by simp [hplus, hdash])]
    rfl

theorem starts_hyphen (negative : Bool) {d : Char} (hd : d.isDigit) (cs : List Char) :
    starts (hyphen negative ++ d :: cs) := by
  have hdot : d ≠ '.' := by
    rintro rfl
    exact absurd hd (by decide)
  have hunsigned : startsUnsigned (d :: cs) := by rwa [startsUnsigned_cons hdot]
  cases negative with
  | true => exact hunsigned
  | false =>
    rw [hyphen, if_neg (by decide), List.nil_append, starts]
    split
    · next hsign => rcases hsign with rfl | rfl <;> exact absurd hd (by decide)
    · exact hunsigned

/-- Digits are read up to where they end, if no fraction and no exponent follows. -/
theorem scan_digits (negative : Bool) (n : Nat) {rest : List Char} (hdigit : ∀ c ∈ rest.head?, c.isDigit = false)
    (hfraction : scanFraction rest = ([], rest)) (hexponent : Exponent.scan rest = (none, rest)) :
    scan (hyphen negative ++ (Nat.toDigits 10 n ++ rest)) =
      (⟨if negative then some '-' else none, Nat.toDigits 10 n, [], none⟩, rest) := by
  obtain ⟨d, ds, hds, hd⟩ := exists_toDigits_cons n
  have hsign := scanSign_hyphen negative hd (ds ++ rest)
  rw [← List.cons_append, ← hds] at hsign
  unfold scan
  rw [hsign]
  dsimp only
  rw [takeWhile_isDigit_append isDigit_of_mem_toDigits hdigit, dropWhile_isDigit_append isDigit_of_mem_toDigits hdigit,
    hfraction]
  dsimp only
  rw [hexponent]

end Numeral

namespace Single

/-- The number is a whole one of at most 24 bits, which needs no fraction and no exponent. -/
def IsShort (x : Single) : Prop := ∃ n < 2 ^ 24, x.HasAbs n

/-- A short number is written in digits. -/
theorem IsShort.toList_text {x : Single} (h : x.IsShort) :
    ∃ n, x.text.toList = Numeral.hyphen x.isNegative ++ Nat.toDigits 10 n ∧
      Numeral.value ⟨if x.isNegative then some '-' else none, Nat.toDigits 10 n, [], none⟩ = x := by
  obtain ⟨n, hbound, hn⟩ := h
  refine ⟨n, ?_, ?_⟩
  · rw [text_of_hasAbs hn hbound, String.toList_append, Nat.repr_eq_ofList_toDigits, String.toList_ofList]
    unfold Numeral.hyphen
    split <;> rfl
  · have hsign : ((if x.isNegative then some '-' else none) == some '-') = x.isNegative := by
      cases x.isNegative <;> rfl
    rw [Numeral.value, List.append_nil, hsign, Numeral.decimalNumber_toDigits]
    exact ofDecimal_of_hasAbs hn hbound _

end Single

/-! ### What may stand behind a token -/

namespace Numeral

theorem starts_of_startsUnsigned {cs : List Char} (h : startsUnsigned cs) : starts cs ∧ cs.head? ≠ some '-' := by
  cases cs with
  | nil => simp [startsUnsigned] at h
  | cons c cs =>
    have hsign : ¬(c = '+' ∨ c = '-') := by
      rintro (rfl | rfl) <;> simp [startsUnsigned] at h
    rw [starts, if_neg hsign]
    exact ⟨h, fun hhead => hsign (.inr (Option.some.inj hhead))⟩

theorem startsUnsigned_of_isDigit {cs : List Char} {c : Char} (hc : c ∈ cs.head?) (h : c.isDigit) :
    startsUnsigned cs := by
  obtain ⟨ds, rfl⟩ := List.head?_eq_some_iff.mp hc
  rw [startsUnsigned_cons, h]
  rintro rfl
  exact absurd h (by decide)

/-- Digits can not be gone on with. -/
def Stops (cs : List Char) : Prop := starts cs → cs.head? = some '-'

namespace Stops

variable {cs : List Char} (h : Stops cs)
include h

theorem startsUnsigned : startsUnsigned cs = false := by
  by_contra hstarts
  obtain ⟨hstarts, hhead⟩ := starts_of_startsUnsigned (by simpa using hstarts)
  exact hhead (h hstarts)

theorem isDigit : ∀ c ∈ cs.head?, c.isDigit = false := by
  intro c hc
  by_contra hdigit
  have hstarts := startsUnsigned_of_isDigit hc (by simpa using hdigit)
  exact Bool.false_ne_true (h.startsUnsigned.symm.trans hstarts)

theorem scanFraction : scanFraction cs = ([], cs) := by
  have hunsigned := h.startsUnsigned
  unfold Numeral.scanFraction
  split
  · next ds =>
    rw [if_neg]
    simpa [Numeral.startsUnsigned] using hunsigned
  · rfl

end Stops
end Numeral

namespace TokenKind

/-- A code point that is a token if it makes none with what is behind it. -/
def standsAlone (c : Char) : Bool :=
  !isBlank c && !isLost c && !isNameStart c && !c.isDigit && (ofMark c).isNone && !(['"', '\x27', '\\'].contains c)

theorem standsAlone_iff {c : Char} :
    standsAlone c ↔ isBlank c = false ∧ isLost c = false ∧ isNameStart c = false ∧ c.isDigit = false ∧
      ofMark c = none ∧ c ≠ '"' ∧ c ≠ '\x27' ∧ c ≠ '\\' := by
  simp only [standsAlone, Bool.and_eq_true, Bool.not_eq_true', List.contains_eq_mem, List.mem_cons, List.not_mem_nil,
    or_false, decide_eq_false_iff_not, not_or, Option.isNone_iff_eq_none, and_assoc]

/-- The payload is one that a token may have where there are no escapes. -/
def Spelled : TokenKind → Prop
  | ident name | function name | atKeyword name | idHash name => Name.Plain name
  | hash name => name ≠ "" ∧ (∀ c ∈ name.toList, isNameChar c) ∧ Name.startsPlain name.toList = false
  | dimension _ unit => Name.Plain unit
  | quotedString value => ∀ c ∈ value.toList, isLost c = false
  | comment text => ¬['*', '/'] <:+: text.toList ∧ ∀ c ∈ text.toList, isKept c
  | delim c => standsAlone c
  | eof => False
  | _ => True

/-- What is left behind a token of this kind that is read from a text without escapes. -/
def Leaves : TokenKind → List Char → Prop
  | whitespace, cs => ∀ c ∈ cs.head?, isBlank c = false
  | ident _, cs => Name.Ends cs
  | atKeyword _, cs | hash _, cs | idHash _, cs | dimension _ _, cs => Name.Stops cs
  | number _, cs => Name.starts cs = false ∧ cs.head? ≠ some '%'
  | delim c, cs =>
    (c ∈ ['#', '-'] → Name.Stops cs) ∧ (c = '@' → Name.starts cs = false) ∧ (c = '/' → cs.head? ≠ some '*') ∧
      ∀ d ∈ cs.head?, ofMarks c d = none
  | _, _ => True

/-- Would digits that stand behind a token of this kind go on with it? -/
def takesDigits : TokenKind → Bool
  | ident _ | atKeyword _ | hash _ | idHash _ | number _ | dimension _ _ => true
  | delim c => ['#', '+', '-', '.'].contains c
  | _ => false

/-- The text does not go on with a token of this kind. -/
structure Stops (k : TokenKind) (cs : List Char) : Prop where
  leaves : k.Leaves cs
  numeral : k.takesDigits → Numeral.Stops cs

/-- What is written in tokens of this kind is read back on its own: no string is broken off, and numbers are short. -/
def IsExact : TokenKind → Prop
  | badString _ => False
  | number value | percentage value | dimension value _ => value.IsShort
  | _ => True

/-- The unit of a dimension reads like an exponent behind the digits of the number. -/
def hidesExponent : TokenKind → Bool
  | dimension _ unit => (Exponent.scan unit.toList).1.isSome
  | _ => false

/-! ### One token -/

theorem scan_atKeyword {name : String} (h : Name.Plain name) {rest : List Char} (hrest : Name.Stops rest) :
    scan ('@' :: (name.toList ++ rest)) = (atKeyword name, rest) := by
  obtain ⟨-, -, -, hstarts, -⟩ := Name.starts_of_startsPlain h.starts rest
  rw [scan_of_ne_slash (by decide), if_neg (by decide), if_neg (by decide), if_neg (by decide), if_pos rfl,
    scanAtKeyword, if_pos hstarts, Name.read_append h.chars hrest]
  simp

theorem scan_hash {name : String} (hne : name ≠ "") (hchars : ∀ c ∈ name.toList, isNameChar c) {rest : List Char}
    (hrest : Name.Stops rest) :
    scan ('#' :: (name.toList ++ rest)) =
      (if Name.startsPlain name.toList then idHash name else hash name, rest) := by
  have hname : name.toList ≠ [] := fun h => hne (String.toList_eq_nil_iff.mp h)
  have hhead : (name.toList ++ rest).head?.any isNameChar := by
    obtain ⟨c, cs, hcons⟩ := List.exists_cons_of_ne_nil hname
    rw [hcons]
    exact hchars c (by rw [hcons]; exact List.mem_cons_self ..)
  rw [scan_of_ne_slash (by decide), if_neg (by decide), if_neg (by decide), if_pos rfl, scanHash,
    if_pos (by rw [hhead, Bool.true_or]), Name.read_append hchars hrest, Name.starts_append hchars hname hrest]
  simp

theorem scan_comment {text : String} (h : ¬['*', '/'] <:+: text.toList) (rest : List Char) :
    scan ('/' :: '*' :: (text.toList ++ '*' :: '/' :: rest)) = (comment text, rest) := by
  rw [scan, scanComment_append h]
  simp

/-- A code point that stands alone is read so if nothing goes on with it. -/
theorem scan_standsAlone {c : Char} (h : standsAlone c) {rest : List Char} (hrest : (delim c).Stops rest) :
    scan (c :: rest) = (delim c, rest) := by
  obtain ⟨⟨hname, hat, hslash, hmarks⟩, hdigits⟩ := hrest
  obtain ⟨hblank, -, hstart, hdigit, hmark, hquote, hapostrophe, hback⟩ := standsAlone_iff.mp h
  have hnumeral : Numeral.starts (c :: rest) = false := by
    rw [Numeral.starts]
    split
    · next hsign =>
      have htakes : (delim c).takesDigits := by rcases hsign with rfl | rfl <;> rfl
      exact (hdigits htakes).startsUnsigned
    · by_cases hdot : c = '.'
      · subst hdot
        have hnone := (hdigits rfl).isDigit
        rw [Numeral.startsUnsigned]
        cases rest with
        | nil => rfl
        | cons d ds => exact hnone d rfl
      · rw [Numeral.startsUnsigned_cons hdot, hdigit]
  have hident : Name.starts (c :: rest) = false := by
    by_cases hdash : c = '-'
    · subst hdash
      exact Name.starts_hyphen_of_stops (hname (by simp))
    · refine Name.starts_eq_false_of_stops fun d hd => ?_
      obtain rfl := Option.some.inj hd
      exact ⟨isNameChar_eq_false_iff.mpr ⟨hstart, hdigit, hdash⟩, hback⟩
  rw [scan_cons hslash, if_neg (by simp [hblank]), if_neg (by simp [hquote, hapostrophe])]
  split
  · next hhash =>
    subst hhash
    have hstops := hname (by simp)
    have hany : rest.head?.any isNameChar = false := by
      cases rest with
      | nil => rfl
      | cons d ds => exact (hstops d rfl).1
    rw [scanHash, hany, Escape.starts_eq_false fun d hd => (hstops d hd).2]
    rfl
  split
  · next hhash hc =>
    subst hc
    rw [scanAtKeyword, hat rfl]
    rfl
  rw [if_neg (by simp [hnumeral]), if_neg (by simp [hident]), scanMarks.eq_def, hmark]
  cases rest with
  | nil => rfl
  | cons d ds => simp only [hmarks d rfl]

/-- A short number is read back where it is not gone on with. -/
theorem scan_short {x : Single} (hx : x.IsShort) {rest : List Char} (hdigit : ∀ c ∈ rest.head?, c.isDigit = false)
    (hfraction : Numeral.scanFraction rest = ([], rest)) (hexponent : Exponent.scan rest = (none, rest)) :
    scan (x.text.toList ++ rest) =
      if Name.starts rest then (dimension x (String.ofList (Name.read rest).1), (Name.read rest).2)
      else if rest.head? = some '%' then (percentage x, rest.tail) else (number x, rest) := by
  obtain ⟨n, htext, hvalue⟩ := hx.toList_text
  have hscan := Numeral.scan_digits x.isNegative n hdigit hfraction hexponent
  obtain ⟨d, ds, hds, hd⟩ := Numeral.exists_toDigits_cons n
  have hstarts := Numeral.starts_hyphen x.isNegative hd (ds ++ rest)
  rw [← List.cons_append, ← hds] at hstarts
  -- the first code point is a hyphen or a digit, so what is read is a numeral
  obtain ⟨c, cs, hcons, hc⟩ : ∃ c cs, Numeral.hyphen x.isNegative ++ (Nat.toDigits 10 n ++ rest) = c :: cs ∧
      isNameChar c := by
    rw [hds]
    cases x.isNegative with
    | true => exact ⟨_, _, rfl, by decide⟩
    | false => exact ⟨d, ds ++ rest, rfl, by rw [isNameChar, hd, Bool.or_true, Bool.true_or]⟩
  rw [htext, List.append_assoc, hcons]
  rw [hcons] at hstarts hscan
  have hquote : c ≠ '"' := ne_of_isNameChar hc (by decide)
  have hapostrophe : c ≠ '\x27' := ne_of_isNameChar hc (by decide)
  rw [scan_of_ne_slash (ne_of_isNameChar hc (by decide)), if_neg (by simp [isBlank_of_isNameChar hc]),
    if_neg (by simp [hquote, hapostrophe]), if_neg (ne_of_isNameChar hc (by decide)),
    if_neg (ne_of_isNameChar hc (by decide)), if_pos hstarts, scanNumeric, hscan]
  dsimp only
  rw [hvalue]

end TokenKind

theorem Exponent.scan_of_ne {c : Char} (h : ¬(c = 'e' ∨ c = 'E')) (cs : List Char) :
    scan (c :: cs) = (none, c :: cs) := by
  rw [scan.eq_def]
  exact if_neg h

/-- No exponent is read of a unit that has none. -/
theorem Exponent.scan_unit_append {unit rest : List Char} (hchars : ∀ c ∈ unit, isNameChar c) (hne : unit ≠ [])
    (hnone : (scan unit).1 = none) (hstops : Name.Stops rest) (hnumeral : Numeral.Stops rest) :
    scan (unit ++ rest) = (none, unit ++ rest) := by
  obtain ⟨c, cs, rfl⟩ := List.exists_cons_of_ne_nil hne
  obtain ⟨-, hchars⟩ := List.forall_mem_cons.mp hchars
  by_cases hmark : c = 'e' ∨ c = 'E'
  · cases cs with
    | nil =>
      -- The unit is the mark alone, and no digits stand behind it, not even with a sign.
      cases rest with
      | nil => rw [List.cons_append, List.nil_append, scan, if_pos hmark]
      | cons d ds =>
        have hdigit : d.isDigit = false := hnumeral.isDigit d rfl
        have hsigned : ¬((d = '+' ∨ d = '-') ∧ ds.head?.any Char.isDigit) := by
          rintro ⟨rfl | rfl, hds⟩
          · obtain ⟨e, he, hds⟩ := Option.any_eq_true _ _ |>.mp hds
            have hstarts : Numeral.starts ('+' :: ds) := Numeral.startsUnsigned_of_isDigit he hds
            exact absurd (hnumeral hstarts) (by simp)
          · exact absurd (hstops '-' rfl).1 (by decide)
        rw [List.cons_append, List.nil_append, scan, if_pos hmark, if_neg (by simp [hdigit]), if_neg hsigned]
    | cons d ds =>
      obtain ⟨hd, hds⟩ := List.forall_mem_cons.mp hchars
      rw [scan, if_pos hmark] at hnone
      have hdigit : d.isDigit = false := by
        by_contra h
        rw [if_pos (by simpa using h)] at hnone
        simp at hnone
      rw [if_neg (by simp [hdigit])] at hnone
      have hsigned : ¬((d = '+' ∨ d = '-') ∧ (ds ++ rest).head?.any Char.isDigit) := by
        rintro ⟨hsign, hdigits⟩
        cases ds with
        | nil =>
          obtain ⟨e, he, hdigits⟩ := Option.any_eq_true _ _ |>.mp hdigits
          exact Bool.false_ne_true ((hnumeral.isDigit e he).symm.trans hdigits)
        | cons e ds =>
          rw [if_pos ⟨hsign, hdigits⟩] at hnone
          simp at hnone
      rw [List.cons_append, List.cons_append, scan, if_pos hmark, if_neg (by simp [hdigit]), if_neg hsigned]
  · rw [List.cons_append, scan_of_ne hmark]

namespace TokenKind

/-- **A token that is written is read back**, if what stands behind does not go on with it. -/
theorem scan_text {k : TokenKind} (hk : k.Spelled) (hexact : k.IsExact) (hunit : k.hidesExponent = false)
    {rest : List Char} (hrest : k.Stops rest) : scan (k.text.toList ++ rest) = (k, rest) := by
  obtain ⟨hleaves, hnumeral⟩ := hrest
  cases k with
  | ident name => exact scan_ident hk hleaves
  | function name =>
    rw [text, String.toList_append, List.append_assoc]
    exact scan_function hk rest
  | atKeyword name =>
    rw [text, String.toList_append, List.append_assoc]
    exact scan_atKeyword hk hleaves
  | hash name =>
    obtain ⟨hne, hchars, hstarts⟩ := hk
    rw [text, String.toList_append, List.append_assoc]
    exact (scan_hash hne hchars hleaves).trans (by rw [hstarts]; rfl)
  | idHash name =>
    have hne : name ≠ "" := by
      rintro rfl
      exact absurd hk.starts (by decide)
    rw [text, String.toList_append, List.append_assoc]
    exact (scan_hash hne hk.chars hleaves).trans (by rw [hk.starts]; rfl)
  | number x =>
    obtain ⟨hname, hpercent⟩ := hleaves
    have hstops := hnumeral rfl
    have hexponent : Exponent.scan rest = (none, rest) := by
      cases rest with
      | nil => rfl
      | cons c cs =>
        refine Exponent.scan_of_ne ?_ cs
        rintro (rfl | rfl) <;> exact Bool.false_ne_true hname.symm
    rw [text, scan_short hexact hstops.isDigit hstops.scanFraction hexponent, if_neg (by simp [hname]),
      if_neg hpercent]
  | percentage x =>
    rw [text, String.toList_append, List.append_assoc]
    exact @scan_short x hexact ('%' :: rest) (by simp) rfl rfl
  | dimension x unit =>
    have hstops := hnumeral rfl
    have hne : unit.toList ≠ [] := by
      intro h
      have hstarts := hk.starts
      rw [h] at hstarts
      exact absurd hstarts (by decide)
    have hexponent : Exponent.scan (unit.toList ++ rest) = (none, unit.toList ++ rest) :=
      Exponent.scan_unit_append hk.chars hne (by simpa [hidesExponent] using hunit) hleaves hstops
    obtain ⟨-, -, -, hstarts, hnone⟩ := Name.starts_of_startsPlain hk.starts rest
    have hbefore : Numeral.Stops (unit.toList ++ rest) := fun h => absurd h (by simp [hnone])
    rw [text, String.toList_append, List.append_assoc,
      scan_short hexact hbefore.isDigit hbefore.scanFraction hexponent, if_pos hstarts, Name.read_append hk.chars hleaves,
      String.ofList_toList]
  | quotedString value =>
    refine scan_quoted (fun c hc => ?_) rest
    rintro rfl
    exact absurd (hk _ hc) (by decide)
  | badString value => exact absurd hexact id
  | whitespace => exact scan_blank hleaves
  | delim c =>
    rw [text, Char.toString, String.toList_singleton, List.singleton_append]
    exact scan_standsAlone hk ⟨hleaves, hnumeral⟩
  | comment text =>
    rw [TokenKind.text, String.toList_append, String.toList_append, List.append_assoc, List.append_assoc]
    exact scan_comment hk.1 rest
  | includeMatch => exact scan_marks (c := '~') (d := '=') rfl rest
  | dashMatch => exact scan_marks (c := '|') (d := '=') rfl rest
  | prefixMatch => exact scan_marks (c := '^') (d := '=') rfl rest
  | suffixMatch => exact scan_marks (c := '$') (d := '=') rfl rest
  | substringMatch => exact scan_marks (c := '*') (d := '=') rfl rest
  | column => exact scan_marks (c := '|') (d := '|') rfl rest
  | leftCurly => exact scan_mark (c := '\x7b') rfl rest
  | rightCurly => exact scan_mark (c := '\x7d') rfl rest
  | leftParen => exact scan_mark (c := '(') rfl rest
  | rightParen => exact scan_mark (c := ')') rfl rest
  | leftBracket => exact scan_mark (c := '[') rfl rest
  | rightBracket => exact scan_mark (c := ']') rfl rest
  | comma => exact scan_mark (c := ',') rfl rest
  | colon => exact scan_mark (c := ':') rfl rest
  | semicolon => exact scan_mark (c := ';') rfl rest
  | eof => exact absurd hk id

end TokenKind
end CssSelector
