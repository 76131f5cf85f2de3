import CssSelector.Proofs.Token.Unescaped

/-!
What a text begins with is known from what its first token is: a name, a number and its sign, a blank, a mark. Main
statement: `begins_scan`.
-/

namespace CssSelector
namespace TokenKind

open CodePoint

def isNameLike : TokenKind → Bool
  | ident _ | function _ => true
  | _ => false

/-- The number that a numeric token has. -/
def value? : TokenKind → Option Single
  | number value | percentage value | dimension value _ => some value
  | _ => none

/-- The mark that a token begins with. -/
def mark? : TokenKind → Option Char
  | delim c => some c
  | includeMatch => some '~'
  | dashMatch | column => some '|'
  | prefixMatch => some '^'
  | suffixMatch => some '$'
  | substringMatch => some '*'
  | leftCurly => some '\x7b'
  | rightCurly => some '\x7d'
  | leftParen => some '('
  | rightParen => some ')'
  | leftBracket => some '['
  | rightBracket => some ']'
  | comma => some ','
  | colon => some ':'
  | semicolon => some ';'
  | _ => none

theorem mark?_of_ofMark {c : Char} {k : TokenKind} (h : ofMark c = some k) :
    k.mark? = some c ∧ k.value? = none ∧ k.isNameLike = false ∧ k ≠ whitespace := by
  revert h
  fun_cases ofMark c with
  | case10 => simp
  | _ =>
    rintro ⟨⟩
    decide

theorem mark?_of_ofMarks {c d : Char} {k : TokenKind} (h : ofMarks c d = some k) :
    k.mark? = some c ∧ k.value? = none ∧ k.isNameLike = false ∧ k ≠ whitespace := by
  revert h
  fun_cases ofMarks c d with
  | case7 => simp
  | _ =>
    rintro ⟨⟩
    decide

theorem mark?_scanMarks (c : Char) (cs : List Char) :
    (scanMarks c cs).1.mark? = some c ∧ (scanMarks c cs).1.value? = none ∧ (scanMarks c cs).1.isNameLike = false ∧
      (scanMarks c cs).1 ≠ whitespace := by
  unfold scanMarks
  split
  · next h => exact mark?_of_ofMark h
  · exact ⟨rfl, rfl, rfl, by simp⟩
  · split
    · next h => exact mark?_of_ofMarks h
    · exact ⟨rfl, rfl, rfl, by simp⟩

theorem value?_scanNumeric (cs : List Char) : (scanNumeric cs).1.value? = some (Numeral.scan cs).1.value := by
  unfold scanNumeric
  dsimp only
  split
  · rfl
  · split <;> rfl

/-- What a text begins with, as the kind of its first token tells. -/
structure Begins (k : TokenKind) (cs : List Char) : Prop where
  name : k.isNameLike = Name.starts cs
  value : k.value? = if Numeral.starts cs then some (Numeral.scan cs).1.value else none
  blank : k = whitespace ↔ ∃ c ∈ cs.head?, isBlank c
  mark : ∀ c ∈ k.mark?, cs.head? = some c

/-- A code point that begins neither a name nor a number. -/
theorem starts_eq_false {c : Char} (hname : isNameChar c = false) (hother : c ∉ ['\\', '+', '.']) (cs : List Char) :
    Name.starts (c :: cs) = false ∧ Numeral.starts (c :: cs) = false := by
  simp only [List.mem_cons, List.not_mem_nil, or_false, not_or] at hother
  obtain ⟨hslash, hplus, hdot⟩ := hother
  refine ⟨Name.starts_eq_false_of_stops fun d hd => ?_, Numeral.starts_eq_false hname hplus hdot cs⟩
  obtain rfl := Option.some.inj hd
  exact ⟨hname, hslash⟩

theorem begins_of_head {k : TokenKind} {c : Char} {cs : List Char}
    (hstarts : Name.starts (c :: cs) = false ∧ Numeral.starts (c :: cs) = false) (hblank : isBlank c = false)
    (hname : k.isNameLike = false) (hvalue : k.value? = none) (hwhite : k ≠ whitespace)
    (hmark : k.mark? = none ∨ k.mark? = some c) : k.Begins (c :: cs) := by
  refine ⟨by rw [hname, hstarts.1], by rw [hvalue, hstarts.2]; rfl, by simp [hblank, hwhite], fun d hd => ?_⟩
  rcases hmark with hmark | hmark
  · cases hmark.symm.trans hd
  · exact hmark.symm.trans hd

theorem begins_blank {c : Char} (h : isBlank c) (cs : List Char) : whitespace.Begins (c :: cs) := by
  have hname : isNameChar c = false := by
    by_contra hname
    exact Bool.false_ne_true ((isBlank_of_isNameChar (by simpa using hname)).symm.trans h)
  have hother : c ∉ ['\\', '+', '.'] := by
    intro hmem
    simp only [List.mem_cons, List.not_mem_nil, or_false] at hmem
    rcases hmem with rfl | rfl | rfl <;> exact absurd h (by decide)
  obtain ⟨hstarts, hnumeral⟩ := starts_eq_false hname hother cs
  exact ⟨hstarts.symm, by rw [hnumeral]; rfl, by simp [h], fun d hd => by cases hd⟩

theorem begins_scanQuoted {quote : Char} (h : quote = '"' ∨ quote = '\x27') (cs : List Char) :
    (scanQuoted quote cs).1.Begins (quote :: cs) := by
  have hhead : isNameChar quote = false ∧ quote ∉ ['\\', '+', '.'] ∧ isBlank quote = false := by
    rcases h with rfl | rfl <;> decide
  obtain ⟨hname, hother, hblank⟩ := hhead
  have hstarts := starts_eq_false hname hother cs
  unfold scanQuoted
  dsimp only
  split
  · exact begins_of_head hstarts hblank rfl rfl (by simp) (.inl rfl)
  · exact begins_of_head hstarts hblank rfl rfl (by simp) (.inl rfl)

theorem begins_scanHash (cs : List Char) : (scanHash cs).1.Begins ('#' :: cs) := by
  have hstarts := starts_eq_false (c := '#') (by decide) (by decide) cs
  unfold scanHash
  split
  · dsimp only
    split
    · exact begins_of_head hstarts (by decide) rfl rfl (by simp) (.inl rfl)
    · exact begins_of_head hstarts (by decide) rfl rfl (by simp) (.inl rfl)
  · exact begins_of_head hstarts (by decide) rfl rfl (by simp) (.inr rfl)

theorem begins_scanAtKeyword (cs : List Char) : (scanAtKeyword cs).1.Begins ('@' :: cs) := by
  have hstarts := starts_eq_false (c := '@') (by decide) (by decide) cs
  unfold scanAtKeyword
  split
  · exact begins_of_head hstarts (by decide) rfl rfl (by simp) (.inl rfl)
  · exact begins_of_head hstarts (by decide) rfl rfl (by simp) (.inr rfl)

theorem begins_scanNumeric {c : Char} {cs : List Char} (h : Numeral.starts (c :: cs)) (hblank : isBlank c = false) :
    (scanNumeric (c :: cs)).1.Begins (c :: cs) := by
  have hname := Name.starts_eq_false_of_numeral h
  unfold scanNumeric
  dsimp only
  split
  · exact ⟨hname.symm, by rw [h]; rfl, by simp [hblank], fun d hd => by cases hd⟩
  split
  · exact ⟨hname.symm, by rw [h]; rfl, by simp [hblank], fun d hd => by cases hd⟩
  · exact ⟨hname.symm, by rw [h]; rfl, by simp [hblank], fun d hd => by cases hd⟩

theorem begins_scanNameLike {c : Char} {cs : List Char} (h : Name.starts (c :: cs))
    (hnumeral : Numeral.starts (c :: cs) = false) (hblank : isBlank c = false) :
    (scanNameLike (c :: cs)).1.Begins (c :: cs) := by
  unfold scanNameLike
  dsimp only
  split
  · exact ⟨h.symm, by rw [hnumeral]; rfl, by simp [hblank], fun d hd => by cases hd⟩
  · exact ⟨h.symm, by rw [hnumeral]; rfl, by simp [hblank], fun d hd => by cases hd⟩

theorem begins_scan (cs : List Char) : (scan cs).1.Begins cs := by
  cases cs with
  | nil =>
    rw [scan]
    exact ⟨rfl, rfl, by simp, fun d hd => by cases hd⟩
  | cons c cs =>
    by_cases hcomment : c = '/' ∧ cs.head? = some '*'
    · obtain ⟨rfl, hhead⟩ := hcomment
      obtain ⟨ds, rfl⟩ := List.head?_eq_some_iff.mp hhead
      rw [scan]
      exact begins_of_head (starts_eq_false (by decide) (by decide) _) (by decide) rfl rfl (by simp) (.inl rfl)
    rw [scan_cons fun hc hhead => hcomment ⟨hc, hhead⟩]
    split
    · next hblank => exact begins_blank hblank cs
    next hblank =>
    have hblank : isBlank c = false := by simpa using hblank
    split
    · next hquote => exact begins_scanQuoted hquote cs
    split
    · next hhash =>
      subst hhash
      exact begins_scanHash cs
    split
    · next hat =>
      subst hat
      exact begins_scanAtKeyword cs
    split
    · next hnumeral => exact begins_scanNumeric hnumeral hblank
    next hnumeral =>
    split
    · next hname => exact begins_scanNameLike hname (by simpa using hnumeral) hblank
    next hname =>
    obtain ⟨hmark, hvalue, hlike, hwhite⟩ := mark?_scanMarks c cs
    exact begins_of_head ⟨by simpa using hname, by simpa using hnumeral⟩ hblank hlike hvalue hwhite (.inr hmark)

/-! ### Names and numbers -/

theorem head_of_starts {c : Char} {cs : List Char} (h : Name.starts (c :: cs) ∨ Numeral.starts (c :: cs)) :
    isNameChar c ∨ c ∈ ['\\', '+', '.'] := by
  by_contra hnone
  obtain ⟨hname, hother⟩ := not_or.mp hnone
  obtain ⟨hstarts, hnumeral⟩ := starts_eq_false (by simpa using hname) hother cs
  rcases h with h | h
  · exact Bool.false_ne_true (hstarts.symm.trans h)
  · exact Bool.false_ne_true (hnumeral.symm.trans h)

/-- Where no blank, string, comment or name behind a mark begins, a number is looked for first, and then a name. -/
theorem scan_of_ne {c : Char} (hblank : isBlank c = false) (hother : c ∉ ['/', '"', '\x27', '#', '@'])
    (cs : List Char) :
    scan (c :: cs) =
      if Numeral.starts (c :: cs) then scanNumeric (c :: cs)
      else if Name.starts (c :: cs) then scanNameLike (c :: cs)
      else scanMarks c cs := by
  simp only [List.mem_cons, List.not_mem_nil, or_false, not_or] at hother
  obtain ⟨hslash, hquote, hapostrophe, hhash, hat⟩ := hother
  rw [scan_of_ne_slash hslash, if_neg (by simp [hblank]), if_neg (by simp [hquote, hapostrophe]), if_neg hhash,
    if_neg hat]

/-- What may begin a name or a number begins nothing that is looked for before them. -/
theorem ne_of_head {c : Char} (h : isNameChar c ∨ c ∈ ['\\', '+', '.']) :
    isBlank c = false ∧ c ∉ ['/', '"', '\x27', '#', '@'] := by
  rcases h with hchar | hmem
  · refine ⟨isBlank_of_isNameChar hchar, fun hmem => ?_⟩
    simp only [List.mem_cons, List.not_mem_nil, or_false] at hmem
    rcases hmem with rfl | rfl | rfl | rfl | rfl <;> exact absurd hchar (by decide)
  · simp only [List.mem_cons, List.not_mem_nil, or_false] at hmem
    rcases hmem with rfl | rfl | rfl <;> decide

theorem scan_eq_scanNumeric {cs : List Char} (h : Numeral.starts cs) : scan cs = scanNumeric cs := by
  cases cs with
  | nil => cases h
  | cons c cs =>
    obtain ⟨hblank, hother⟩ := ne_of_head (head_of_starts (.inr h))
    rw [scan_of_ne hblank hother, if_pos h]

theorem scan_eq_scanNameLike {cs : List Char} (h : Name.starts cs) : scan cs = scanNameLike cs := by
  have hnumeral : ¬Numeral.starts cs := fun hnumeral =>
    Bool.false_ne_true ((Name.starts_eq_false_of_numeral hnumeral).symm.trans h)
  cases cs with
  | nil => cases h
  | cons c cs =>
    obtain ⟨hblank, hother⟩ := ne_of_head (head_of_starts (.inl h))
    rw [scan_of_ne hblank hother, if_neg hnumeral, if_pos h]

/-! ### Marks -/

/-- A mark that begins neither a name nor a number begins the token. -/
theorem mark?_scan {c : Char} {cs : List Char} (hblank : isBlank c = false)
    (hother : c ∉ ['/', '"', '\x27', '#', '@']) (hname : Name.starts (c :: cs) = false)
    (hnumeral : Numeral.starts (c :: cs) = false) : (scan (c :: cs)).1.mark? = some c := by
  rw [scan_of_ne hblank hother, if_neg (by simp [hnumeral]), if_neg (by simp [hname])]
  exact (mark?_scanMarks c cs).1

/-- The mark behind a token is decided by the kind of the token that it begins. -/
theorem head?_of_scan_eq {c : Char} {cs ds : List Char} (hname : isNameChar c = false) (hblank : isBlank c = false)
    (hother : c ∉ ['\\', '+', '.', '/', '"', '\x27', '#', '@']) (hsame : (scan ds).1 = (scan cs).1)
    (h : ds.head? = some c) : cs.head? = some c := by
  simp only [List.mem_cons, List.not_mem_nil, or_false, not_or] at hother
  obtain ⟨ds, rfl⟩ := List.head?_eq_some_iff.mp h
  obtain ⟨hstarts, hnumeral⟩ := starts_eq_false hname (by simp [hother]) ds
  have hmark := mark?_scan hblank (by simp [hother]) hstarts hnumeral
  rw [hsame] at hmark
  exact (begins_scan cs).mark c hmark

end TokenKind
end CssSelector
