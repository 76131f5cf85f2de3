import CssSelector.Proofs.Token.Printing
import CssSelector.Proofs.Token.Suffix

/-!
Tokens of a text without escapes. What they hold is part of the text, so it can be written as it is, and each token ends
where nothing goes on with it. Main statement: `readOf_scan`.
-/

namespace CssSelector

open CodePoint

/-! ### Texts without escapes -/

namespace Name

theorem starts_of_isNameStart {c : Char} (h : isNameStart c) (cs : List Char) : starts (c :: cs) := by
  unfold starts
  split
  · next heq =>
    obtain ⟨rfl, -⟩ := List.cons.inj heq
    exact absurd h (by decide)
  · rw [List.head?_cons, Option.any_some, h, Bool.true_or]

section

variable {cs : List Char} (h : '\\' ∉ cs)
include h

/-- Where there are no escapes, the code points that are read are those of the name. -/
theorem exists_read : ∃ name rest, cs = name ++ rest ∧ read cs = (name, rest) ∧ (∀ c ∈ name, isNameChar c) ∧
    Stops rest := by
  have hname : ∀ c ∈ cs.takeWhile isNameChar, isNameChar c := fun c hc => List.mem_takeWhile_imp hc
  have hrest : Stops (cs.dropWhile isNameChar) := by
    intro c hc
    refine ⟨?_, fun hback => h (hback ▸ (List.dropWhile_suffix _).subset (List.mem_of_mem_head? hc))⟩
    have hhead := List.head?_dropWhile_not isNameChar cs
    rw [hc] at hhead
    simpa using hhead
  have happend : cs.takeWhile isNameChar ++ cs.dropWhile isNameChar = cs := List.takeWhile_append_dropWhile
  refine ⟨_, _, happend.symm, ?_, hname, hrest⟩
  rw [← read_append hname hrest, happend]

/-- Where an identifier begins, a plain name is read. -/
theorem exists_read_of_starts (hstarts : starts cs) : ∃ name rest, cs = name ++ rest ∧ read cs = (name, rest) ∧
    Plain (String.ofList name) ∧ Stops rest := by
  obtain ⟨name, rest, rfl, hread, hchars, hrest⟩ := exists_read h
  have hne : name ≠ [] := by
    rintro rfl
    exact Bool.false_ne_true ((starts_eq_false_of_stops hrest).symm.trans hstarts)
  refine ⟨name, rest, rfl, hread, ⟨by simpa using hchars, ?_⟩, hrest⟩
  rw [String.toList_ofList, ← starts_append hchars hne hrest, hstarts]

end
end Name

namespace Numeral

theorem isNegative_value (n : Numeral) : n.value.isNegative = (n.sign == some '-') := Single.isNegative_ofDecimal _ _ _ _

/-- A number is negative if it is written with a hyphen. -/
theorem isNegative_value_scan (cs : List Char) : (scan cs).1.value.isNegative ↔ cs.head? = some '-' := by
  have hsign : (scan cs).1.sign = (scanSign cs).1 := rfl
  rw [isNegative_value, hsign, beq_iff_eq]
  cases cs with
  | nil => simp [scanSign]
  | cons c cs =>
    rw [scanSign, List.head?_cons]
    split
    · rfl
    · next h => simp [(not_or.mp h).2]

/-- A number without a sign begins with a code point that begins no name. -/
theorem exists_cons_of_startsUnsigned {cs : List Char} (h : startsUnsigned cs) :
    ∃ c ds, cs = c :: ds ∧ isNameStart c = false ∧ c ≠ '-' ∧ c ≠ '\\' := by
  cases cs with
  | nil => exact absurd h (by decide)
  | cons c ds =>
    refine ⟨c, ds, rfl, ?_⟩
    by_cases hdot : c = '.'
    · subst hdot
      decide
    · rw [startsUnsigned_cons hdot] at h
      refine ⟨?_, ?_, ?_⟩
      · by_contra hstart
        exact Bool.false_ne_true ((isDigit_of_isNameStart (by simpa using hstart)).symm.trans h)
      · rintro rfl
        exact absurd h (by decide)
      · rintro rfl
        exact absurd h (by decide)

end Numeral

theorem Name.starts_eq_false_of_numeral {cs : List Char} (h : Numeral.starts cs) : starts cs = false := by
  cases cs with
  | nil => exact absurd h (by decide)
  | cons c cs =>
    rw [Numeral.starts] at h
    split at h
    · next hsign =>
      obtain ⟨d, ds, rfl, hstart, hdash, hback⟩ := Numeral.exists_cons_of_startsUnsigned h
      rcases hsign with rfl | rfl
      · exact starts_eq_false_of_stops fun e he => by
          obtain rfl := Option.some.inj he
          decide
      · have hescape : Escape.starts (d :: ds) = false := Escape.starts_eq_false fun e he => by
          obtain rfl := Option.some.inj he
          exact hback
        simp [starts, hstart, hdash, hescape]
    · obtain ⟨d, ds, heq, hstart, hdash, hback⟩ := Numeral.exists_cons_of_startsUnsigned h
      obtain ⟨rfl, rfl⟩ := List.cons.inj heq
      have hescape : Escape.starts (c :: cs) = false := Escape.starts_eq_false fun e he => by
        obtain rfl := Option.some.inj he
        exact hback
      unfold starts
      split
      · next heq => exact absurd (List.cons.inj heq).1 hdash
      · simp [hstart, hescape]

theorem Numeral.starts_of_isDigit {c : Char} (h : c.isDigit) (cs : List Char) : starts (c :: cs) :=
  (starts_of_startsUnsigned (startsUnsigned_of_isDigit rfl h)).1

/-- Nothing goes on with a hyphen that begins neither a name nor a number. -/
theorem Name.stops_of_hyphen {cs : List Char} (h : '\\' ∉ cs) (hname : starts ('-' :: cs) = false)
    (hnumeral : Numeral.starts ('-' :: cs) = false) : Stops cs := by
  intro c hc
  obtain ⟨ds, rfl⟩ := List.head?_eq_some_iff.mp hc
  have hdigit : c.isDigit = false := by
    by_contra hdigit
    exact Bool.false_ne_true (hnumeral.symm.trans (Numeral.startsUnsigned_of_isDigit rfl (by simpa using hdigit)))
  rw [starts, List.head?_cons, Option.any_some, Bool.or_eq_false_iff, Bool.or_eq_false_iff] at hname
  obtain ⟨⟨hstart, hhyphen⟩, -⟩ := hname
  refine ⟨by rw [isNameChar, hstart, hdigit, hhyphen]; rfl, ?_⟩
  rintro rfl
  exact h (List.mem_cons_self ..)

theorem scanComment_isPrefix (cs : List Char) : (scanComment cs).1 <+: cs := by
  fun_induction scanComment cs with
  | case1 => exact List.prefix_rfl
  | case2 => exact List.nil_prefix
  | case3 c cs _ text rest hrest ih =>
    rw [hrest] at ih
    exact List.prefix_cons_inj c |>.mpr ih

/-- A comment does not hold the marks that end it. -/
theorem not_infix_scanComment (cs : List Char) : ¬['*', '/'] <:+: (scanComment cs).1 := by
  fun_induction scanComment cs with
  | case1 => simp
  | case2 => simp
  | case3 c cs hend text rest hrest ih =>
    have hprefix := scanComment_isPrefix cs
    rw [hrest] at ih hprefix
    intro h
    rcases List.infix_cons_iff.mp h with hmarks | h
    · obtain ⟨ds, hds⟩ := hmarks
      obtain ⟨rfl, rfl⟩ := List.cons.inj hds
      obtain ⟨es, rfl⟩ := hprefix
      exact hend _ rfl rfl
    · exact ih h

/-- Where there are no escapes, the code points of a string are part of the text, without line feeds. -/
theorem scanString_spec (quote : Char) {cs : List Char} (h : '\\' ∉ cs) :
    ∀ c ∈ (scanString quote cs).2.1, c ∈ cs ∧ c ≠ '\n' := by
  induction cs with
  | nil => simp [scanString]
  | cons d cs ih =>
    obtain ⟨hslash, hcs⟩ : d ≠ '\\' ∧ '\\' ∉ cs := by simpa [eq_comm] using h
    by_cases hquote : d = quote
    · rw [hquote, TokenKind.scanString_end]
      simp
    by_cases hfeed : d = '\n'
    · rw [scanString.eq_def]
      dsimp only
      rw [if_neg hquote, if_pos hfeed]
      simp
    · rw [TokenKind.scanString_plain hquote hfeed hslash]
      intro c hc
      rcases List.mem_cons.mp hc with rfl | hc
      · exact ⟨List.mem_cons_self .., hfeed⟩
      · exact ⟨List.mem_cons_of_mem d (ih hcs c hc).1, (ih hcs c hc).2⟩

/-! ### What is read -/

namespace TokenKind

/-- A token that is read of a text without escapes, and what is left of the text. -/
structure ReadOf (k : TokenKind) (rest : List Char) : Prop where
  spelled : k.Spelled
  leaves : k.Leaves rest

section

variable {cs : List Char} (h : '\\' ∉ cs)
include h

theorem readOf_scanQuoted {quote : Char} (hkept : ∀ c ∈ cs, isKept c) :
    ReadOf (scanQuoted quote cs).1 (scanQuoted quote cs).2 := by
  have hvalue : ∀ c ∈ (scanString quote cs).2.1, isLost c = false := fun c hc =>
    isLost_eq_false (hkept c (scanString_spec quote h c hc).1) (scanString_spec quote h c hc).2
  unfold scanQuoted
  dsimp only
  split
  · exact ⟨fun c hc => hvalue c (by simpa using hc), trivial⟩
  · exact ⟨trivial, trivial⟩

theorem readOf_scanHash : ReadOf (scanHash cs).1 (scanHash cs).2 := by
  obtain ⟨name, rest, rfl, hread, hchars, hrest⟩ := Name.exists_read h
  unfold scanHash
  cases name with
  | nil =>
    have hany : rest.head?.any isNameChar = false := by
      cases rest with
      | nil => rfl
      | cons c cs => exact (hrest c rfl).1
    rw [List.nil_append, hany, Escape.starts_eq_false fun c hc => (hrest c hc).2]
    exact ⟨(by decide : standsAlone '#'), by simp [Leaves, ofMarks, hrest]⟩
  | cons c cs =>
    have hne : c :: cs ≠ [] := List.cons_ne_nil c cs
    have hc : isNameChar c := hchars c (List.mem_cons_self ..)
    rw [if_pos (by rw [List.cons_append, List.head?_cons, Option.any_some, hc, Bool.true_or]), hread]
    dsimp only
    rw [Name.starts_append hchars hne hrest]
    split
    · next hstarts => exact ⟨⟨by simpa using hchars, by simpa using hstarts⟩, hrest⟩
    · next hstarts => exact ⟨⟨by simp, by simpa using hchars, by simpa using hstarts⟩, hrest⟩

theorem readOf_scanAtKeyword : ReadOf (scanAtKeyword cs).1 (scanAtKeyword cs).2 := by
  unfold scanAtKeyword
  split
  · next hstarts =>
    obtain ⟨name, rest, rfl, hread, hname, hrest⟩ := Name.exists_read_of_starts h hstarts
    rw [hread]
    exact ⟨hname, hrest⟩
  · next hstarts => exact ⟨(by decide : standsAlone '@'), by simpa [Leaves, ofMarks] using hstarts⟩

theorem readOf_scanNumeric : ReadOf (scanNumeric cs).1 (scanNumeric cs).2 := by
  unfold scanNumeric
  dsimp only
  split
  · next hstarts =>
    have hrest : '\\' ∉ (Numeral.scan cs).2 := fun hmem => h ((Numeral.scan_suffix cs).subset hmem)
    obtain ⟨unit, rest, -, hread, hunit, hrest⟩ := Name.exists_read_of_starts hrest hstarts
    rw [hread]
    exact ⟨hunit, hrest⟩
  · next hstarts =>
    split
    · exact ⟨trivial, trivial⟩
    · next hpercent => exact ⟨trivial, by simpa using hstarts, hpercent⟩

theorem readOf_scanNameLike (hstarts : Name.starts cs) : ReadOf (scanNameLike cs).1 (scanNameLike cs).2 := by
  obtain ⟨name, rest, rfl, hread, hname, hrest⟩ := Name.exists_read_of_starts h hstarts
  unfold scanNameLike
  rw [hread]
  dsimp only
  split
  · exact ⟨hname, trivial⟩
  · next hparen =>
    refine ⟨hname, fun c hc => ⟨(hrest c hc).1, (hrest c hc).2, ?_⟩⟩
    rintro rfl
    exact hparen hc

end

theorem readOf_ofMark {c : Char} {k : TokenKind} (h : ofMark c = some k) (rest : List Char) : k.ReadOf rest := by
  revert h
  fun_cases ofMark c with
  | case10 => simp
  | _ =>
    rintro ⟨⟩
    exact ⟨trivial, trivial⟩

theorem readOf_ofMarks {c d : Char} {k : TokenKind} (h : ofMarks c d = some k) (rest : List Char) : k.ReadOf rest := by
  revert h
  fun_cases ofMarks c d with
  | case7 => simp
  | _ =>
    rintro ⟨⟩
    exact ⟨trivial, trivial⟩

theorem readOf_scanMarks {c : Char} {cs : List Char} (h : ofMark c = none → standsAlone c)
    (hleaves : (c ∈ ['#', '-'] → Name.Stops cs) ∧ (c = '@' → Name.starts cs = false) ∧ (c = '/' → cs.head? ≠ some '*')) :
    ReadOf (scanMarks c cs).1 (scanMarks c cs).2 := by
  obtain ⟨hname, hat, hslash⟩ := hleaves
  unfold scanMarks
  split
  · next hmark => exact readOf_ofMark hmark _
  · next hmark => exact ⟨h hmark, hname, hat, hslash, by simp⟩
  · next d ds hmark =>
    split
    · next hmarks => exact readOf_ofMarks hmarks _
    · next hmarks =>
      refine ⟨h hmark, hname, hat, hslash, fun e he => ?_⟩
      obtain rfl := Option.some.inj he
      exact hmarks

/-- What is read of a text without escapes is spelled so, and ends where it has to. -/
theorem readOf_scan {c : Char} {cs : List Char} (h : '\\' ∉ c :: cs) (hkept : ∀ d ∈ c :: cs, isKept d) :
    ReadOf (scan (c :: cs)).1 (scan (c :: cs)).2 := by
  obtain ⟨hslash, hcs⟩ : c ≠ '\\' ∧ '\\' ∉ cs := by simpa [eq_comm] using h
  obtain ⟨hc, hrest⟩ := List.forall_mem_cons.mp hkept
  by_cases hcomment : c = '/' ∧ cs.head? = some '*'
  · obtain ⟨rfl, hhead⟩ := hcomment
    obtain ⟨ds, rfl⟩ := List.head?_eq_some_iff.mp hhead
    have htext : ∀ d ∈ (scanComment ds).1, isKept d := fun d hd =>
      hrest d (List.mem_cons_of_mem '*' ((scanComment_isPrefix ds).subset hd))
    rw [scan]
    exact ⟨⟨by simpa using not_infix_scanComment ds, by simpa using htext⟩, trivial⟩
  rw [scan_cons fun hc hhead => hcomment ⟨hc, hhead⟩]
  split
  · refine ⟨trivial, fun d hd => ?_⟩
    have hhead := List.head?_dropWhile_not isBlank cs
    rw [hd] at hhead
    simpa using hhead
  next hblank =>
  split
  · exact readOf_scanQuoted hcs hrest
  next hquote =>
  split
  · exact readOf_scanHash hcs
  next hhash =>
  split
  · exact readOf_scanAtKeyword hcs
  next hat =>
  split
  · exact readOf_scanNumeric h
  next hnumeral =>
  split
  · next hstarts => exact readOf_scanNameLike h hstarts
  next hname =>
  refine readOf_scanMarks (fun hmark => ?_) ⟨?_, fun hc => absurd hc hat, fun hc hhead => hcomment ⟨hc, hhead⟩⟩
  · have hfeed : c ≠ '\n' := by
      rintro rfl
      exact hblank rfl
    have hstart : isNameStart c = false := by
      by_contra hstart
      exact hname (Name.starts_of_isNameStart (by simpa using hstart) cs)
    have hdigit : c.isDigit = false := by
      by_contra hdigit
      exact hnumeral (Numeral.starts_of_isDigit (by simpa using hdigit) cs)
    obtain ⟨hquote, hapostrophe⟩ := not_or.mp hquote
    exact standsAlone_iff.mpr
      ⟨by simpa using hblank, isLost_eq_false hc hfeed, hstart, hdigit, hmark, hquote, hapostrophe, hslash⟩
  · intro hmem
    rcases List.mem_cons.mp hmem with rfl | hmem
    · exact absurd rfl hhash
    · obtain rfl := List.mem_singleton.mp hmem
      exact Name.stops_of_hyphen hcs (by simpa using hname) (by simpa using hnumeral)

end TokenKind
end CssSelector
