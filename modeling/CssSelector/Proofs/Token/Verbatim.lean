import CssSelector.Proofs.Text.Preprocessed
import CssSelector.Proofs.Token.Beginnings
import CssSelector.Proofs.Token.OnDemand

/-!
Tokens of a text without escapes, beside the part of the text that each was read of. Names, marks and comments are
written as they stand there, a string stands there between its quotes, and white space is never broken up. Main
statement: `nthNext_verbatim`.
-/

namespace CssSelector

open CodePoint

/-! ### Comments and strings -/

/-- A comment is followed by the marks that close it, or goes on to the end of the text. -/
theorem scanComment_append_or (cs : List Char) :
    cs = (scanComment cs).1 ++ '*' :: '/' :: (scanComment cs).2 ∨
      cs = (scanComment cs).1 ∧ (scanComment cs).2 = [] := by
  fun_induction scanComment cs with
  | case1 => exact .inr ⟨rfl, rfl⟩
  | case2 cs => exact .inl rfl
  | case3 c cs _ text rest hrest ih =>
    rw [hrest] at ih
    rcases ih with hclosed | ⟨hopen, hend⟩
    · exact .inl (congrArg (c :: ·) hclosed)
    · exact .inr ⟨congrArg (c :: ·) hopen, hend⟩

/-- Where there are no escapes, a string is followed by its quote, or goes on to the end of the text. -/
theorem scanString_append_or {quote : Char} {cs : List Char} (h : '\\' ∉ cs) (hwhole : (scanString quote cs).1) :
    quote ∉ (scanString quote cs).2.1 ∧ (cs = (scanString quote cs).2.1 ++ quote :: (scanString quote cs).2.2 ∨
      cs = (scanString quote cs).2.1 ∧ (scanString quote cs).2.2 = []) := by
  induction cs with
  | nil => simp [scanString]
  | cons c cs ih =>
    obtain ⟨hslash, hcs⟩ : c ≠ '\\' ∧ '\\' ∉ cs := by simpa [eq_comm] using h
    by_cases hquote : c = quote
    · rw [hquote, TokenKind.scanString_end]
      simp
    by_cases hfeed : c = '\n'
    · rw [scanString.eq_def] at hwhole
      dsimp only at hwhole
      rw [if_neg hquote, if_pos hfeed] at hwhole
      cases hwhole
    · rw [TokenKind.scanString_plain hquote hfeed hslash] at hwhole ⊢
      obtain ⟨hnone, htext⟩ := ih hcs hwhole
      constructor
      · intro hmem
        rcases List.mem_cons.mp hmem with heq | hmem
        · exact hquote heq.symm
        · exact hnone hmem
      · rcases htext with hclosed | ⟨hopen, hend⟩
        · exact .inl (congrArg (c :: ·) hclosed)
        · exact .inr ⟨congrArg (c :: ·) hopen, hend⟩

namespace TokenKind

/-! ### Single tokens -/

/-- A token of this kind is read of the part `cs` of a text, with `rest` behind it, where there are no escapes. Nothing
is said of numbers, which have more than one spelling, and of strings that are broken off. -/
def SpelledAs : TokenKind → List Char → List Char → Prop
  | number _, _, _ | percentage _, _, _ | dimension _ _, _, _ | badString _, _, _ | eof, _, _ => True
  | whitespace, cs, rest => cs ≠ [] ∧ (∀ c ∈ cs, isBlank c) ∧ ∀ c ∈ rest.head?, isBlank c = false
  | quotedString value, cs, rest =>
    ∃ quote, (quote = '"' ∨ quote = '\x27') ∧ quote ∉ value.toList ∧ '\n' ∉ value.toList ∧
      (cs = quote :: (value.toList ++ [quote]) ∨ cs = quote :: value.toList ∧ rest = [])
  | comment text, cs, rest =>
    ¬['*', '/'] <:+: text.toList ∧
      (cs = '/' :: '*' :: (text.toList ++ ['*', '/']) ∨ cs = '/' :: '*' :: text.toList ∧ rest = [])
  | k, cs, _ => cs = k.text.toList

/-- What is read of the text `cs` is a part of it that the token is spelled as. -/
def ReadsPart (scanned : TokenKind × List Char) (cs : List Char) : Prop :=
  ∃ part, cs = part ++ scanned.2 ∧ scanned.1.SpelledAs part scanned.2

theorem spelledAs_of_value? {k : TokenKind} {x : Single} (h : k.value? = some x) (cs rest : List Char) :
    k.SpelledAs cs rest := by
  cases k with
  | number | percentage | dimension => trivial
  | _ => cases h

theorem readsPart_blank {c : Char} (h : isBlank c) (cs : List Char) :
    ReadsPart (whitespace, cs.dropWhile isBlank) (c :: cs) := by
  refine ⟨c :: cs.takeWhile isBlank, ?_, List.cons_ne_nil c _, ?_, fun d hd => ?_⟩
  · rw [List.cons_append, List.takeWhile_append_dropWhile]
  · exact List.forall_mem_cons.mpr ⟨h, fun d hd => List.mem_takeWhile_imp hd⟩
  · have hhead := List.head?_dropWhile_not isBlank cs
    rw [hd] at hhead
    simpa using hhead

theorem readsPart_comment (cs : List Char) :
    ReadsPart (comment (String.ofList (scanComment cs).1), (scanComment cs).2) ('/' :: '*' :: cs) := by
  have hnone : ¬['*', '/'] <:+: (String.ofList (scanComment cs).1).toList := by simpa using not_infix_scanComment cs
  rcases scanComment_append_or cs with hclosed | ⟨hopen, hend⟩
  · refine ⟨'/' :: '*' :: ((scanComment cs).1 ++ ['*', '/']), ?_, hnone, .inl (by simp)⟩
    simpa using hclosed
  · refine ⟨'/' :: '*' :: (scanComment cs).1, ?_, hnone, .inr ⟨by simp, hend⟩⟩
    rw [hend, List.append_nil, ← hopen]

section

variable {cs : List Char} (h : '\\' ∉ cs)
include h

theorem readsPart_scanQuoted {quote : Char} (hquote : quote = '"' ∨ quote = '\x27') :
    ReadsPart (scanQuoted quote cs) (quote :: cs) := by
  unfold scanQuoted
  dsimp only
  split
  · next hwhole =>
    obtain ⟨hnone, htext⟩ := scanString_append_or h hwhole
    have hfeed : '\n' ∉ (scanString quote cs).2.1 := fun hmem => (scanString_spec quote h _ hmem).2 rfl
    rcases htext with hclosed | ⟨hopen, hend⟩
    · refine ⟨quote :: ((scanString quote cs).2.1 ++ [quote]), ?_, quote, hquote, ?_⟩
      · simpa using hclosed
      · simpa using ⟨hnone, hfeed⟩
    · refine ⟨quote :: (scanString quote cs).2.1, ?_, quote, hquote, ?_⟩
      · simpa [hend] using hopen
      · simpa [hend] using ⟨hnone, hfeed⟩
  · obtain ⟨part, hpart⟩ := (scanString_suffix quote cs).trans (List.suffix_cons quote cs)
    exact ⟨part, hpart.symm, trivial⟩

theorem readsPart_scanHash : ReadsPart (scanHash cs) ('#' :: cs) := by
  obtain ⟨name, rest, rfl, hread, -, -⟩ := Name.exists_read h
  unfold scanHash
  rw [hread]
  split
  · dsimp only
    split
    · exact ⟨'#' :: name, rfl, by simp [SpelledAs, text]⟩
    · exact ⟨'#' :: name, rfl, by simp [SpelledAs, text]⟩
  · exact ⟨['#'], rfl, by simp [SpelledAs, text]⟩

theorem readsPart_scanAtKeyword : ReadsPart (scanAtKeyword cs) ('@' :: cs) := by
  obtain ⟨name, rest, rfl, hread, -, -⟩ := Name.exists_read h
  unfold scanAtKeyword
  rw [hread]
  split
  · exact ⟨'@' :: name, rfl, by simp [SpelledAs, text]⟩
  · exact ⟨['@'], rfl, by simp [SpelledAs, text]⟩

theorem readsPart_scanNameLike : ReadsPart (scanNameLike cs) cs := by
  obtain ⟨name, rest, rfl, hread, -, -⟩ := Name.exists_read h
  unfold scanNameLike
  rw [hread]
  dsimp only
  split
  · next hparen =>
    obtain ⟨ds, rfl⟩ := List.head?_eq_some_iff.mp hparen
    exact ⟨name ++ ['('], by simp, by simp [SpelledAs, text]⟩
  · exact ⟨name, rfl, by simp [SpelledAs, text]⟩

end

theorem readsPart_scanNumeric (cs : List Char) : ReadsPart (scanNumeric cs) cs := by
  obtain ⟨part, hpart⟩ := scanNumeric_suffix cs
  exact ⟨part, hpart.symm, spelledAs_of_value? (value?_scanNumeric cs) part _⟩

theorem spelledAs_of_ofMark {c : Char} {k : TokenKind} (h : ofMark c = some k) (rest : List Char) :
    k.SpelledAs [c] rest := by
  revert h
  fun_cases ofMark c with
  | case10 => simp
  | _ =>
    rintro ⟨⟩
    simp [SpelledAs, text]

theorem spelledAs_of_ofMarks {c d : Char} {k : TokenKind} (h : ofMarks c d = some k) (rest : List Char) :
    k.SpelledAs [c, d] rest := by
  revert h
  fun_cases ofMarks c d with
  | case7 => simp
  | _ =>
    rintro ⟨⟩
    simp [SpelledAs, text]

theorem readsPart_scanMarks (c : Char) (cs : List Char) : ReadsPart (scanMarks c cs) (c :: cs) := by
  unfold scanMarks
  split
  · next hmark => exact ⟨[c], rfl, spelledAs_of_ofMark hmark _⟩
  · exact ⟨[c], rfl, by simp [SpelledAs, text]⟩
  · next d ds _ =>
    split
    · next hmarks => exact ⟨[c, d], rfl, spelledAs_of_ofMarks hmarks _⟩
    · exact ⟨[c], rfl, by simp [SpelledAs, text]⟩

/-- Where there are no escapes, every token is spelled as the part of the text that it is read of. -/
theorem readsPart_scan {cs : List Char} (h : '\\' ∉ cs) : ReadsPart (scan cs) cs := by
  cases cs with
  | nil =>
    rw [scan]
    exact ⟨[], rfl, trivial⟩
  | cons c cs =>
    have hcs : '\\' ∉ cs := fun hmem => h (List.mem_cons_of_mem c hmem)
    by_cases hcomment : c = '/' ∧ cs.head? = some '*'
    · obtain ⟨rfl, hhead⟩ := hcomment
      obtain ⟨ds, rfl⟩ := List.head?_eq_some_iff.mp hhead
      rw [scan]
      exact readsPart_comment ds
    rw [scan_cons fun hc hhead => hcomment ⟨hc, hhead⟩]
    split
    · next hblank => exact readsPart_blank hblank cs
    split
    · next hquote => exact readsPart_scanQuoted hcs hquote
    split
    · next hhash =>
      subst hhash
      exact readsPart_scanHash hcs
    split
    · next hat =>
      subst hat
      exact readsPart_scanAtKeyword hcs
    split
    · exact readsPart_scanNumeric (c :: cs)
    split
    · exact readsPart_scanNameLike h
    · exact readsPart_scanMarks c cs

/-- Names and marks: the tokens that are written as they were read where there are no escapes. -/
def isVerbatim : TokenKind → Bool
  | atKeyword _ | ident _ | function _ | hash _ | idHash _ | delim _ => true
  | includeMatch | dashMatch | prefixMatch | suffixMatch | substringMatch | column => true
  | leftCurly | rightCurly | leftParen | rightParen | leftBracket | rightBracket => true
  | comma | colon | semicolon => true
  | _ => false

namespace SpelledAs

variable {cs rest : List Char}

theorem text_eq {k : TokenKind} (h : k.SpelledAs cs rest) (hk : k.isVerbatim) : k.text.toList = cs := by
  cases k with
  | number | percentage | dimension | quotedString | badString | whitespace | comment | eof => cases hk
  | _ => exact h.symm

/-- A comment that goes on to the end of the text does not end in the marks that close one. -/
theorem comment_text_eq {text : String} (h : (comment text).SpelledAs cs rest) {body : List Char}
    (hclosed : cs = '/' :: '*' :: (body ++ ['*', '/'])) : (comment text).text.toList = cs := by
  obtain ⟨hnone, hmarks | ⟨hopen, -⟩⟩ := h
  · rw [hmarks, TokenKind.text, String.toList_append, String.toList_append]
    rfl
  · rw [hopen] at hclosed
    have htext : text.toList = body ++ ['*', '/'] := by simpa using hclosed
    exact absurd ⟨body, [], by rw [htext, List.append_nil]⟩ hnone

/-- A string that goes on to the end of the text does not end in its quote. -/
theorem quotedString_eq {value : String} (h : (quotedString value).SpelledAs cs rest) {quote : Char} {body : List Char}
    (hclosed : cs = quote :: (body ++ [quote])) :
    (quote = '"' ∨ quote = '\x27') ∧ body = value.toList ∧ quote ∉ body ∧ '\n' ∉ body := by
  obtain ⟨d, hquote, hnone, hfeed, hmarks | ⟨hopen, -⟩⟩ := h
  · rw [hmarks] at hclosed
    obtain ⟨rfl, hbody⟩ := List.cons.inj hclosed
    obtain rfl := List.append_cancel_right hbody
    exact ⟨hquote, rfl, hnone, hfeed⟩
  · rw [hopen] at hclosed
    obtain ⟨rfl, hbody⟩ := List.cons.inj hclosed
    rw [hbody] at hnone
    exact absurd (List.mem_append_right body (List.mem_singleton.mpr rfl)) hnone

end SpelledAs
end TokenKind

open TokenKind

/-! ### Tokens in their places -/

namespace Token

/-- The text `cs`, which begins at `start`, from where the token `t` begins. -/
def textFrom (start : Location) (cs : List Char) (t : Token) : List Char := cs.drop (t.location.offset - start.offset)

/-- The text `cs`, which begins at `start`, from where the token `t` begins to where `t'` does. -/
def textBetween (start : Location) (cs : List Char) (t t' : Token) : List Char :=
  textFrom start (cs.take (t'.location.offset - start.offset)) t

/-- The token `t` agrees with the text from where it begins to where the next token `t'` does. -/
structure Verbatim (start : Location) (cs : List Char) (t t' : Token) : Prop where
  text : t.kind.isVerbatim → t.text.toList = textBetween start cs t t'
  /-- A comment does not hold the marks that close one, and is written as it was read if it was closed. -/
  comment : ∀ text, t.kind = .comment text → ¬['*', '/'] <:+: text.toList ∧
    ∀ body, textBetween start cs t t' = '/' :: '*' :: (body ++ ['*', '/']) → t.text.toList = textBetween start cs t t'
  /-- A string that was closed stands between its quotes. -/
  quotedString : ∀ value, t.kind = .quotedString value →
    ∀ quote body, textBetween start cs t t' = quote :: (body ++ [quote]) →
      (quote = '"' ∨ quote = '\x27') ∧ body = value.toList ∧ quote ∉ body ∧ '\n' ∉ body
  /-- White space is taken as far as it goes. -/
  whitespace : t.kind = .whitespace → textBetween start cs t t' ≠ [] ∧ (∀ c ∈ textBetween start cs t t', isBlank c) ∧
    (∀ c ∈ (textFrom start cs t').head?, isBlank c = false) ∧ t'.kind ≠ .whitespace

section

variable (start : Location) (cs : List Char) (k : Nat)

theorem offset_nth_sub : (nth start cs k).location.offset - start.offset = cut cs k := by
  rw [nth, Location.behind]
  dsimp only
  rw [length_take_cut, Nat.add_sub_cancel_left]

theorem textFrom_nth : textFrom start cs (nth start cs k) = left cs k := by
  rw [textFrom, offset_nth_sub, drop_cut]

/-- What is left of the text is the part up to the next token, and what is left then. -/
theorem left_eq_append :
    left cs k = textBetween start cs (nth start cs k) (nth start cs (k + 1)) ++ left cs (k + 1) := by
  have hle : cut cs k ≤ (cs.take (cut cs (k + 1))).length := by
    rw [take_cut_succ, List.length_append, length_take_cut]
    exact Nat.le_add_right _ _
  rw [textBetween, textFrom, offset_nth_sub, offset_nth_sub, ← drop_cut cs (k + 1), ← List.drop_append_of_le_length hle,
    List.take_append_drop, drop_cut]

end

/-- Every token agrees with its part of a text without escapes. -/
theorem verbatim_nth (start : Location) {cs : List Char} (h : '\\' ∉ cs) (k : Nat) :
    Verbatim start cs (nth start cs k) (nth start cs (k + 1)) := by
  have hslash : '\\' ∉ left cs k := fun hmem => h ((left_suffix cs k).subset hmem)
  obtain ⟨part, hpart, hspelled⟩ := readsPart_scan hslash
  have hbetween : textBetween start cs (nth start cs k) (nth start cs (k + 1)) = part := by
    rw [← left_succ, left_eq_append start cs k] at hpart
    exact List.append_cancel_right hpart
  have hkind : (nth start cs k).kind = (scan (left cs k)).1 := rfl
  rw [← left_succ, ← hbetween, ← hkind] at hspelled
  constructor
  case text => exact hspelled.text_eq
  case comment =>
    intro text htext
    rw [htext] at hspelled
    refine ⟨hspelled.1, fun body hclosed => ?_⟩
    rw [Token.text, htext]
    exact hspelled.comment_text_eq hclosed
  case quotedString =>
    intro value hvalue quote body hclosed
    rw [hvalue] at hspelled
    exact hspelled.quotedString_eq hclosed
  case whitespace =>
    intro hwhite
    rw [hwhite] at hspelled
    obtain ⟨hne, hblank, hrest⟩ := hspelled
    rw [textFrom_nth]
    refine ⟨hne, hblank, hrest, fun hnext => ?_⟩
    obtain ⟨c, hc, hcblank⟩ := (begins_scan (left cs (k + 1))).blank.mp hnext
    exact Bool.false_ne_true ((hrest c hc).symm.trans hcblank)

end Token

namespace TokenBuffer

/-- **Tokens keep the text that they are read of**, where there are no escapes: names, marks and closed comments are
written as they stand in the text, a closed string is what stands between its quotes, and white space takes all blanks
that there are. -/
theorem nthNext_verbatim {s : String} (h : '\\' ∉ s.toList) (start : Location) (k : Nat) :
    Token.Verbatim start (Text.preprocess s.toList) ((new (.ofString s) start).nthNext k)
      ((new (.ofString s) start).nthNext (k + 1)) := by
  rw [nthNext_new]
  exact Token.verbatim_nth start (Text.notMem_preprocess h) k

/-- The comment in `a|=/*b*/c` is written as it was read. -/
theorem nthNext_verbatim_comment :
    '\\' ∉ "a|=/*b*/c".toList ∧ ((new (.ofString "a|=/*b*/c") .origin).nthNext 2).kind = .comment "b" ∧
      ((new (.ofString "a|=/*b*/c") .origin).nthNext 2).text.toList = "/*b*/".toList := by
  have hslash : '\\' ∉ "a|=/*b*/c".toList := by simp
  have hkind : ((new (.ofString "a|=/*b*/c") .origin).nthNext 2).kind = .comment "b" := by with_unfolding_all rfl
  have hpart : Token.textBetween .origin (Text.preprocess "a|=/*b*/c".toList)
      ((new (.ofString "a|=/*b*/c") .origin).nthNext 2) ((new (.ofString "a|=/*b*/c") .origin).nthNext (2 + 1)) =
      '/' :: '*' :: (['b'] ++ ['*', '/']) := by with_unfolding_all rfl
  obtain ⟨-, hcomment⟩ := (nthNext_verbatim hslash .origin 2).comment "b" hkind
  exact ⟨hslash, hkind, (hcomment ['b'] hpart).trans hpart⟩

end TokenBuffer
end CssSelector
