import CssSelector.ComponentValue.Grouping
import CssSelector.Text.Quoted
import Mathlib.Data.List.TakeWhile

/-!
Reading tokens of text that was printed. A piece of text comes to its tokens whatever stands behind it, as long as
that does not go on with the last of them. Where tokens begin is left out here: `Scans` knows their kinds only.
-/

namespace CssSelector

open CodePoint

/-! ### Code points -/

namespace CodePoint

theorem isDigit_of_isNameStart {c : Char} (h : isNameStart c) : c.isDigit = false := by
  by_contra hdigit
  have hc : 48 ≤ c.toNat ∧ c.toNat ≤ 57 := Char.isDigit_iff_toNat.mp (by simpa using hdigit)
  have hascii : isAscii c := by
    rw [isAscii, decide_eq_true_eq]
    omega
  rw [isNameStart, hascii] at h
  unfold Char.isAlpha Char.isUpper Char.isLower at h
  simp only [Bool.not_true, Bool.or_false, Bool.or_eq_true, Bool.and_eq_true, decide_eq_true_eq,
    UInt32.le_iff_toNat_le, beq_iff_eq] at h
  rcases h with (⟨h, -⟩ | ⟨h, -⟩) | rfl
  all_goals simp_all <;> omega

theorem isNameChar_of_isNameStart {c : Char} (h : isNameStart c) : isNameChar c := by
  rw [isNameChar, h, Bool.true_or, Bool.true_or]

theorem isNameChar_eq_false_iff {c : Char} :
    isNameChar c = false ↔ isNameStart c = false ∧ c.isDigit = false ∧ c ≠ '-' := by
  rw [isNameChar, Bool.or_eq_false_iff, Bool.or_eq_false_iff, beq_eq_false_iff_ne, and_assoc]

theorem ne_of_isNameChar {c d : Char} (h : isNameChar c) (hd : isNameChar d = false) : c ≠ d := by
  rintro rfl
  exact Bool.false_ne_true (hd.symm.trans h)

/-- A code point that does not stay as it is when a text is read, or breaks a string off: a line break or NUL. -/
def isLost (c : Char) : Bool := ['\n', '\r', '\x0c', '\x00'].contains c

theorem isLost_of_isNameChar {c : Char} (h : isNameChar c) : isLost c = false := by
  have hfeed : c ≠ '\n' := ne_of_isNameChar h (by decide)
  have hreturn : c ≠ '\r' := ne_of_isNameChar h (by decide)
  have hform : c ≠ '\x0c' := ne_of_isNameChar h (by decide)
  have hnul : c ≠ '\x00' := ne_of_isNameChar h (by decide)
  simp [isLost, hfeed, hreturn, hform, hnul]

theorem isBlank_of_isNameChar {c : Char} (h : isNameChar c) : isBlank c = false := by
  have hspace : c ≠ ' ' := ne_of_isNameChar h (by decide)
  have htab : c ≠ '\t' := ne_of_isNameChar h (by decide)
  have hfeed : c ≠ '\n' := ne_of_isNameChar h (by decide)
  simp [isBlank, hspace, htab, hfeed]

end CodePoint

theorem Numeral.startsUnsigned_cons {c : Char} (hdot : c ≠ '.') (cs : List Char) :
    startsUnsigned (c :: cs) = c.isDigit := by
  rw [startsUnsigned.eq_def]
  split
  · next heq => exact absurd (List.cons.inj heq).1 hdot
  · rfl

theorem Numeral.starts_eq_false {c : Char} (hname : isNameChar c = false) (hplus : c ≠ '+') (hdot : c ≠ '.')
    (cs : List Char) : starts (c :: cs) = false := by
  obtain ⟨-, hdigit, hdash⟩ := isNameChar_eq_false_iff.mp hname
  rw [starts, if_neg (by simp [hplus, hdash]), startsUnsigned_cons hdot, hdigit]

/-! ### Runs of tokens -/

namespace TokenKind

/-- What the tokens are that code points come to, with the end of the text. -/
def scanAll : List Char → List TokenKind
  | [] => [eof]
  | c :: cs => (scan (c :: cs)).1 :: scanAll (scan (c :: cs)).2
termination_by cs => cs.length
decreasing_by exact length_scan_lt c cs

theorem scanAll_of_scan {cs rest : List Char} {k : TokenKind} (h : scan cs = (k, rest)) (hk : k ≠ eof) :
    scanAll cs = k :: scanAll rest := by
  cases cs with
  | nil =>
    obtain rfl : eof = k := congrArg Prod.fst h
    exact absurd rfl hk
  | cons c cs => rw [scanAll, h]

/-- The kinds of the tokens do not depend on where the text begins. -/
theorem kinds_scanAll (start running : Location) (cs : List Char) :
    (Token.scanAll start running cs).map Token.kind = scanAll cs := by
  fun_induction Token.scanAll start running cs with
  | case1 running => rw [scanAll]; rfl
  | case2 running c cs scanned ih => rw [scanAll, List.map_cons, ih]

/-- What the tokens of a text are, with the end of the text. -/
def ofString (s : String) : List TokenKind :=
  (Token.scanAll .origin .origin (Source.ofString s).unread).map Token.kind

theorem ofString_eq (s : String) : ofString s = scanAll (Text.preprocess s.toList) := kinds_scanAll _ _ _

end TokenKind

/-- The text comes to tokens of these kinds, and then `rest` is left. -/
inductive Scans : List Char → List TokenKind → List Char → Prop
  | nil (cs : List Char) : Scans cs [] cs
  | cons {c : Char} {cs ds rest : List Char} {k : TokenKind} {ks : List TokenKind}
      (hk : TokenKind.scan (c :: cs) = (k, ds)) (hne : k ≠ .eof) (hs : Scans ds ks rest) :
      Scans (c :: cs) (k :: ks) rest

namespace Scans

theorem append {cs ds rest : List Char} {ks ls : List TokenKind} (h : Scans cs ks ds) (h' : Scans ds ls rest) :
    Scans cs (ks ++ ls) rest := by
  induction h with
  | nil => exact h'
  | cons hk hne hs ih => exact .cons hk hne (ih h')

/-- The tokens of a text, of which the first are known. -/
theorem exists_tokens_append {cs rest : List Char} {ks : List TokenKind} (h : Scans cs ks rest)
    (start running : Location) :
    ∃ running', ((Token.scanAll start running cs).takeWhile (!·.isEof)).map Token.kind =
      ks ++ ((Token.scanAll start running' rest).takeWhile (!·.isEof)).map Token.kind := by
  induction h generalizing running with
  | nil => exact ⟨running, rfl⟩
  | @cons c cs ds rest k ks hk hne hs ih =>
    have heof : Token.isEof ⟨k, start.shift running⟩ = false := by simpa [Token.isEof] using hne
    obtain ⟨running', htokens⟩ := ih (running.after (consumed (c :: cs) ds))
    refine ⟨running', ?_⟩
    rw [Token.scanAll, hk, List.takeWhile_cons_of_pos (by rw [heof]; rfl), List.map_cons, htokens, List.cons_append]

/-- The tokens of a text that is read to its end. -/
theorem tokens {cs : List Char} {ks : List TokenKind} (h : Scans cs ks []) (start running : Location) :
    ((Token.scanAll start running cs).takeWhile (!·.isEof)).map Token.kind = ks := by
  obtain ⟨running', htokens⟩ := h.exists_tokens_append start running
  rw [htokens, Token.scanAll]
  exact List.append_nil ks

end Scans

/-! ### Names -/

namespace Name

/-- The code points of a name that needs no escapes: it may begin with a hyphen, but then not go on with a digit. -/
def startsPlain : List Char → Bool
  | '-' :: cs => cs.head?.any fun c => isNameStart c || c == '-'
  | cs => cs.head?.any isNameStart

/-- A name that is written as it is. -/
structure Plain (name : String) : Prop where
  chars : ∀ c ∈ name.toList, isNameChar c
  starts : startsPlain name.toList

/-- The text does not go on with a name, and no parenthesis makes what is before it a function. -/
def Ends (cs : List Char) : Prop := ∀ c ∈ cs.head?, isNameChar c = false ∧ c ≠ '\\' ∧ c ≠ '('

theorem read_append {cs rest : List Char} (h : ∀ c ∈ cs, isNameChar c)
    (hrest : ∀ c ∈ rest.head?, isNameChar c = false ∧ c ≠ '\\') : read (cs ++ rest) = (cs, rest) := by
  induction cs with
  | nil =>
    cases rest with
    | nil => rw [List.nil_append, read]
    | cons c rest =>
      obtain ⟨hc, hescape⟩ := hrest c rfl
      have hstarts : Escape.starts (c :: rest) = false := by
        unfold Escape.starts
        split <;> simp_all
      rw [List.nil_append, read, if_neg (by simp [hc]), if_neg (by simp [hstarts])]
  | cons c cs ih =>
    rw [List.cons_append, read, if_pos (h c (List.mem_cons_self ..)), ih fun d hd => h d (List.mem_cons_of_mem c hd)]

theorem exists_cons_of_startsPlain {cs : List Char} (h : startsPlain cs) :
    ∃ c ds, cs = c :: ds ∧ (isNameStart c ∨ c = '-') := by
  revert h
  fun_cases startsPlain cs with
  | case1 ds => exact fun _ => ⟨'-', ds, rfl, .inr rfl⟩
  | case2 =>
    intro h
    cases cs with
    | nil => simp at h
    | cons c ds => exact ⟨c, ds, rfl, .inl (by simpa using h)⟩

/-- A plain name begins like an identifier, and not like a number. -/
theorem starts_of_startsPlain {cs : List Char} (h : startsPlain cs) (rest : List Char) :
    ∃ c ds, cs = c :: ds ∧ starts (cs ++ rest) ∧ Numeral.starts (cs ++ rest) = false := by
  have hunsigned {c : Char} (hc : isNameStart c ∨ c = '-') (ds : List Char) :
      Numeral.startsUnsigned (c :: ds) = false := by
    have hdot : c ≠ '.' := by
      rintro rfl
      exact absurd hc (by decide)
    rw [Numeral.startsUnsigned_cons hdot]
    rcases hc with hc | rfl
    · exact isDigit_of_isNameStart hc
    · rfl
  revert h
  fun_cases startsPlain cs with
  | case1 cs =>
    intro h
    cases cs with
    | nil => simp at h
    | cons c cs =>
      have hc : isNameStart c ∨ c = '-' := by simpa using h
      refine ⟨'-', c :: cs, rfl, ?_, ?_⟩
      · simp only [List.cons_append, starts, List.head?_cons, Option.any_some, Bool.or_eq_true]
        exact .inl (by simpa using h)
      · simp only [List.cons_append, Numeral.starts]
        exact hunsigned hc _
  | case2 _ hdash =>
    intro h
    cases cs with
    | nil => simp at h
    | cons c cs =>
      have hc : isNameStart c := by simpa using h
      have hplus : c ≠ '+' := ne_of_isNameChar (isNameChar_of_isNameStart hc) (by decide)
      have hminus : c ≠ '-' := by
        rintro rfl
        exact hdash cs rfl
      refine ⟨c, cs, rfl, ?_, ?_⟩
      · unfold starts
        split
        · simp_all
        · simp [hc]
      · rw [List.cons_append, Numeral.starts, if_neg (by simp [hplus, hminus])]
        exact hunsigned (.inl hc) _

end Name

/-! ### One token -/

namespace TokenKind

/-- A slash is read like any other code point if it begins no comment. -/
theorem scan_cons {c : Char} {cs : List Char} (h : c = '/' → cs.head? ≠ some '*') :
    scan (c :: cs) =
      if isBlank c then (whitespace, cs.dropWhile isBlank)
      else if c = '"' ∨ c = '\x27' then scanQuoted c cs
      else if c = '#' then scanHash cs
      else if c = '@' then scanAtKeyword cs
      else if Numeral.starts (c :: cs) then scanNumeric (c :: cs)
      else if Name.starts (c :: cs) then scanNameLike (c :: cs)
      else scanMarks c cs := by
  rw [scan]
  rintro ds rfl rfl
  exact h rfl rfl

theorem scan_of_ne_slash {c : Char} (hc : c ≠ '/') (cs : List Char) :
    scan (c :: cs) =
      if isBlank c then (whitespace, cs.dropWhile isBlank)
      else if c = '"' ∨ c = '\x27' then scanQuoted c cs
      else if c = '#' then scanHash cs
      else if c = '@' then scanAtKeyword cs
      else if Numeral.starts (c :: cs) then scanNumeric (c :: cs)
      else if Name.starts (c :: cs) then scanNameLike (c :: cs)
      else scanMarks c cs := scan_cons fun h => absurd h hc

/-- A plain name is read as it stands. -/
theorem scan_plain {name : String} (h : Name.Plain name) (rest : List Char) :
    scan (name.toList ++ rest) = scanNameLike (name.toList ++ rest) := by
  obtain ⟨c, cs, hname, hstarts, hnumeral⟩ := Name.starts_of_startsPlain h.starts rest
  rw [hname, List.cons_append] at hstarts hnumeral ⊢
  have hc : isNameChar c := h.chars c (by rw [hname]; exact List.mem_cons_self ..)
  have hslash : c ≠ '/' := ne_of_isNameChar hc (by decide)
  have hquote : c ≠ '"' := ne_of_isNameChar hc (by decide)
  have hapostrophe : c ≠ '\x27' := ne_of_isNameChar hc (by decide)
  have hhash : c ≠ '#' := ne_of_isNameChar hc (by decide)
  have hat : c ≠ '@' := ne_of_isNameChar hc (by decide)
  rw [scan_of_ne_slash hslash, if_neg (by simp [isBlank_of_isNameChar hc]), if_neg (by simp [hquote, hapostrophe]),
    if_neg hhash, if_neg hat, if_neg (by simp [hnumeral]), if_pos hstarts]

theorem scan_ident {name : String} (h : Name.Plain name) {rest : List Char} (hrest : Name.Ends rest) :
    scan (name.toList ++ rest) = (ident name, rest) := by
  have hread : Name.read (name.toList ++ rest) = (name.toList, rest) :=
    Name.read_append h.chars fun c hc => ⟨(hrest c hc).1, (hrest c hc).2.1⟩
  have hparen : rest.head? ≠ some '(' := fun hc => (hrest '(' hc).2.2 rfl
  rw [scan_plain h, scanNameLike, hread]
  simp [hparen]

theorem scan_function {name : String} (h : Name.Plain name) (rest : List Char) :
    scan (name.toList ++ '(' :: rest) = (function name, rest) := by
  have hread : Name.read (name.toList ++ '(' :: rest) = (name.toList, '(' :: rest) := by
    refine Name.read_append h.chars fun c hc => ?_
    obtain rfl : '(' = c := by simpa using hc
    decide
  rw [scan_plain h, scanNameLike, hread]
  simp

theorem scan_idHash {name : String} (h : Name.Plain name) {rest : List Char} (hrest : Name.Ends rest) :
    scan ('#' :: (name.toList ++ rest)) = (idHash name, rest) := by
  obtain ⟨c, cs, hname, hstarts, -⟩ := Name.starts_of_startsPlain h.starts rest
  have hread : Name.read (name.toList ++ rest) = (name.toList, rest) :=
    Name.read_append h.chars fun c hc => ⟨(hrest c hc).1, (hrest c hc).2.1⟩
  have hhead : (name.toList ++ rest).head?.any isNameChar := by
    rw [hname]
    exact h.chars c (by rw [hname]; exact List.mem_cons_self ..)
  rw [scan_of_ne_slash (by decide), if_neg (by decide), if_neg (by decide), if_pos rfl, scanHash,
    if_pos (by rw [hhead, Bool.true_or]), hread]
  simp only [hstarts, if_true, String.ofList_toList]

theorem scanString_end (quote : Char) (cs : List Char) : scanString quote (quote :: cs) = (true, [], cs) := by
  rw [scanString.eq_def]
  simp only [if_true]

theorem scanString_plain {quote c : Char} (hquote : c ≠ quote) (hfeed : c ≠ '\n') (hslash : c ≠ '\\') (cs : List Char) :
    scanString quote (c :: cs) =
      ((scanString quote cs).1, c :: (scanString quote cs).2.1, (scanString quote cs).2.2) := by
  rw [scanString.eq_def]
  simp only [if_neg hquote, if_neg hfeed, if_neg hslash]

theorem scanString_escaped {quote c : Char} (hquote : quote ≠ '\\') (hfeed : c ≠ '\n') (hhex : isHexDigit c = false)
    (cs : List Char) :
    scanString quote ('\\' :: c :: cs) =
      ((scanString quote cs).1, c :: (scanString quote cs).2.1, (scanString quote cs).2.2) := by
  have hread : Escape.read (c :: cs) = (c, cs) := by rw [Escape.read, if_neg (by simp [hhex])]
  rw [scanString.eq_def]
  simp only [if_neg hquote.symm, if_neg hfeed, if_true, hread]
  rfl

/-- Escaped text is read back, whatever comes behind it. -/
theorem scanString_escape_append {cs : List Char} (h : ∀ c ∈ cs, c ≠ '\n') (rest : List Char) :
    scanString '"' (Quoted.escape cs ++ rest) =
      ((scanString '"' rest).1, cs ++ (scanString '"' rest).2.1, (scanString '"' rest).2.2) := by
  induction cs with
  | nil => rfl
  | cons c cs ih =>
    have hfeed : c ≠ '\n' := h c (List.mem_cons_self ..)
    have hcs := ih fun d hd => h d (List.mem_cons_of_mem c hd)
    rw [Quoted.escape]
    split
    · next hc =>
      have hhex : isHexDigit c = false := by
        rcases hc with rfl | rfl <;> decide
      rw [List.cons_append, List.cons_append, scanString_escaped (by decide) hfeed hhex, hcs]
      rfl
    · next hc =>
      obtain ⟨hslash, hquote⟩ := not_or.mp hc
      rw [List.cons_append, scanString_plain hquote hfeed hslash, hcs]
      rfl

theorem scanString_escape {cs : List Char} (h : ∀ c ∈ cs, c ≠ '\n') (rest : List Char) :
    scanString '"' (Quoted.escape cs ++ '"' :: rest) = (true, cs, rest) := by
  rw [scanString_escape_append h, scanString_end, List.append_nil]

theorem scan_quoted {value : String} (h : ∀ c ∈ value.toList, c ≠ '\n') (rest : List Char) :
    scan ((Quoted.encode value).toList ++ rest) = (quotedString value, rest) := by
  have htext : (Quoted.encode value).toList ++ rest = '"' :: (Quoted.escape value.toList ++ '"' :: rest) := by
    rw [Quoted.encode, String.toList_ofList, List.cons_append, List.cons_append, List.append_assoc]
    rfl
  rw [htext, scan_of_ne_slash (by decide), if_neg (by decide), if_pos (.inl rfl), scanQuoted, scanString_escape h]
  simp

theorem isLost_of_mem_escape {cs : List Char} (h : ∀ c ∈ cs, isLost c = false) :
    ∀ c ∈ Quoted.escape cs, isLost c = false := by
  induction cs with
  | nil => exact h
  | cons c cs ih =>
    have hc := h c (List.mem_cons_self ..)
    have hcs := ih fun d hd => h d (List.mem_cons_of_mem c hd)
    rw [Quoted.escape]
    split
    · exact List.forall_mem_cons.mpr ⟨by decide, List.forall_mem_cons.mpr ⟨hc, hcs⟩⟩
    · exact List.forall_mem_cons.mpr ⟨hc, hcs⟩

/-! ### Marks -/

theorem scan_blank {rest : List Char} (hrest : ∀ c ∈ rest.head?, isBlank c = false) :
    scan (' ' :: rest) = (whitespace, rest) := by
  rw [scan_of_ne_slash (by decide), if_pos (by decide)]
  cases rest with
  | nil => rfl
  | cons c cs => rw [List.dropWhile_cons_of_neg (by simp [hrest c rfl])]

/-- A code point that begins nothing but a mark. -/
def isMark (c : Char) : Bool :=
  !isBlank c && !isNameChar c && !(['/', '"', '\x27', '#', '@', '\\'].contains c)

theorem scan_of_isMark {c : Char} (h : isMark c) {rest : List Char} (hnumeral : Numeral.starts (c :: rest) = false) :
    scan (c :: rest) = scanMarks c rest := by
  simp only [isMark, Bool.and_eq_true, Bool.not_eq_true', List.contains_eq_mem, List.mem_cons, decide_eq_false_iff_not,
    not_or] at h
  obtain ⟨⟨hblank, hname⟩, hslash, hquote, hapostrophe, hhash, hat, hback, -⟩ := h
  have hstart : isNameStart c = false := by
    by_contra hc
    exact Bool.false_ne_true (hname.symm.trans (isNameChar_of_isNameStart (by simpa using hc)))
  have hdash : c ≠ '-' := by
    rintro rfl
    exact absurd hname (by decide)
  have hstarts : Name.starts (c :: rest) = false := by
    unfold Name.starts Escape.starts
    split
    · simp_all
    · split <;> simp_all
  rw [scan_of_ne_slash hslash, if_neg (by simp [hblank]), if_neg (by simp [hquote, hapostrophe]), if_neg hhash,
    if_neg hat, if_neg (by simp [hnumeral]), if_neg (by simp [hstarts])]

theorem numeral_starts_of_isMark {c : Char} (h : isMark c) (hplus : c ≠ '+') (hdot : c ≠ '.') (rest : List Char) :
    Numeral.starts (c :: rest) = false := by
  simp only [isMark, Bool.and_eq_true, Bool.not_eq_true'] at h
  exact Numeral.starts_eq_false h.1.2 hplus hdot rest

theorem scan_mark {c : Char} {k : TokenKind} (hk : ofMark c = some k) (rest : List Char) :
    scan (c :: rest) = (k, rest) := by
  have hmark : isMark c ∧ c ≠ '+' ∧ c ≠ '.' := by
    revert hk
    fun_cases ofMark c with
    | case10 => simp
    | _ => exact fun _ => by decide
  rw [scan_of_isMark hmark.1 (numeral_starts_of_isMark hmark.1 hmark.2.1 hmark.2.2 rest), scanMarks.eq_def, hk]

/-- Two marks that belong together. -/
theorem scan_marks {c d : Char} {k : TokenKind} (hk : ofMarks c d = some k) (rest : List Char) :
    scan (c :: d :: rest) = (k, rest) := by
  have hmark : isMark c ∧ c ≠ '+' ∧ c ≠ '.' ∧ ofMark c = none := by
    revert hk
    fun_cases ofMarks c d with
    | case7 => simp
    | _ => exact fun _ => by decide
  obtain ⟨hmark, hplus, hdot, hnone⟩ := hmark
  rw [scan_of_isMark hmark (numeral_starts_of_isMark hmark hplus hdot _), scanMarks.eq_def, hnone]
  simp only [hk]

/-- A mark that makes no token with what is behind it. -/
theorem scan_delim {c : Char} (h : isMark c) (hnone : ofMark c = none) {rest : List Char}
    (hnumeral : Numeral.starts (c :: rest) = false) (hrest : ∀ d ∈ rest.head?, ofMarks c d = none) :
    scan (c :: rest) = (delim c, rest) := by
  rw [scan_of_isMark h hnumeral, scanMarks.eq_def, hnone]
  cases rest with
  | nil => rfl
  | cons d ds => simp only [hrest d rfl]

end TokenKind

/-! ### Preprocessing -/

namespace Text

/-- A text that stays as it is stays so before any other. -/
theorem preprocess_append {cs : List Char} (h : ∀ c ∈ cs, isLost c = false) (rest : List Char) :
    preprocess (cs ++ rest) = cs ++ preprocess rest := by
  induction cs with
  | nil => rfl
  | cons c cs ih =>
    obtain ⟨hlost, hcs⟩ := List.forall_mem_cons.mp h
    have hc : c ≠ '\n' ∧ c ≠ '\r' ∧ c ≠ '\x0c' ∧ c ≠ '\x00' := by simpa [isLost] using hlost
    obtain ⟨-, hreturn, hfeed, hnul⟩ := hc
    rw [List.cons_append, preprocess, ih hcs, normalize, if_neg (by simp [hreturn, hfeed]), if_neg hnul,
      List.cons_append]
    rintro ds rfl
    exact absurd rfl hreturn

theorem preprocess_eq_self {cs : List Char} (h : ∀ c ∈ cs, isLost c = false) : preprocess cs = cs := by
  simpa [preprocess] using preprocess_append h []

end Text
end CssSelector
