import CssSelector.Number.Numeral
import CssSelector.Token.Basic
import CssSelector.Token.Name

/-!
From text to tokens. `TokenKind.scan` reads the token that a text begins with; it takes at least one code point of a
text that is not empty, so `Token.scanAll` comes to the end of every text.
-/

namespace CssSelector

open CodePoint

/-- Splits a text behind the opening of a comment at its end. An unclosed comment takes all. -/
def scanComment : List Char → List Char × List Char
  | [] => ([], [])
  | '*' :: '/' :: cs => ([], cs)
  | c :: cs =>
    let (text, rest) := scanComment cs
    (c :: text, rest)

/-- Reads a string up to its closing quote, which is dropped, or to the end of the text. A line feed breaks the string
off (`false`) and stays unread. A backslash takes a line feed behind it out of the string, and vanishes at the end. -/
def scanString (quote : Char) : List Char → Bool × List Char × List Char
  | [] => (true, [], [])
  | c :: cs =>
    if c = quote then (true, [], cs)
    else if c = '\n' then (false, [], c :: cs)
    else if c = '\\' then
      match cs with
      | [] => (true, [], [])
      | d :: ds =>
        if d = '\n' then scanString quote ds
        else
          let escaped := Escape.read (d :: ds)
          let (closed, value, rest) := scanString quote escaped.2
          (closed, escaped.1 :: value, rest)
    else
      let (closed, value, rest) := scanString quote cs
      (closed, c :: value, rest)
termination_by cs => cs.length
decreasing_by
  · simp only [List.length_cons]; omega
  · exact Nat.lt_succ_of_le (Escape.length_read_le (d :: ds))
  · simp only [List.length_cons]; omega

namespace TokenKind

/-- The tokens that one code point makes alone. -/
def ofMark : Char → Option TokenKind
  | ')' => some rightParen
  | '(' => some leftParen
  | '[' => some leftBracket
  | ']' => some rightBracket
  | '\x7b' => some leftCurly
  | '\x7d' => some rightCurly
  | ',' => some comma
  | ':' => some colon
  | ';' => some semicolon
  | _ => none

/-- The tokens that two code points make together. -/
def ofMarks : Char → Char → Option TokenKind
  | '~', '=' => some includeMatch
  | '|', '=' => some dashMatch
  | '^', '=' => some prefixMatch
  | '$', '=' => some suffixMatch
  | '*', '=' => some substringMatch
  | '|', '|' => some column
  | _, _ => none

/-- Reads a string behind its opening quote. -/
def scanQuoted (quote : Char) (cs : List Char) : TokenKind × List Char :=
  let (closed, value, rest) := scanString quote cs
  (if closed then quotedString (String.ofList value) else badString (String.ofList value), rest)

/-- Reads what follows a hash sign. -/
def scanHash (cs : List Char) : TokenKind × List Char :=
  if cs.head?.any isNameChar || Escape.starts cs then
    let (name, rest) := Name.read cs
    (if Name.starts cs then idHash (String.ofList name) else hash (String.ofList name), rest)
  else (delim '#', cs)

/-- Reads what follows an at sign. -/
def scanAtKeyword (cs : List Char) : TokenKind × List Char :=
  if Name.starts cs then
    let (name, rest) := Name.read cs
    (atKeyword (String.ofList name), rest)
  else (delim '@', cs)

/-- Reads a numeral and the unit or percent sign behind it. -/
def scanNumeric (cs : List Char) : TokenKind × List Char :=
  let (numeral, rest) := Numeral.scan cs
  if Name.starts rest then
    let (unit, rest) := Name.read rest
    (dimension numeral.value (String.ofList unit), rest)
  else if rest.head? = some '%' then (percentage numeral.value, rest.tail)
  else (number numeral.value, rest)

/-- Reads an identifier, which an opening parenthesis makes a function. -/
def scanNameLike (cs : List Char) : TokenKind × List Char :=
  let (name, rest) := Name.read cs
  if rest.head? = some '(' then (function (String.ofList name), rest.tail)
  else (ident (String.ofList name), rest)

/-- Reads one mark, or two that belong together. -/
def scanMarks (c : Char) (cs : List Char) : TokenKind × List Char :=
  match ofMark c, cs with
  | some kind, _ => (kind, cs)
  | none, [] => (delim c, [])
  | none, d :: ds =>
    match ofMarks c d with
    | some kind => (kind, ds)
    | none => (delim c, d :: ds)

/-- Reads the token that a text begins with. A numeral goes before a name. -/
def scan : List Char → TokenKind × List Char
  | [] => (eof, [])
  | '/' :: '*' :: cs =>
    let (text, rest) := scanComment cs
    (comment (String.ofList text), rest)
  | c :: cs =>
    if isBlank c then (whitespace, cs.dropWhile isBlank)
    else if c = '"' ∨ c = '\x27' then scanQuoted c cs
    else if c = '#' then scanHash cs
    else if c = '@' then scanAtKeyword cs
    else if Numeral.starts (c :: cs) then scanNumeric (c :: cs)
    else if Name.starts (c :: cs) then scanNameLike (c :: cs)
    else scanMarks c cs

end TokenKind

/-! ### Progress -/

theorem length_scanComment_le (cs : List Char) : (scanComment cs).2.length ≤ cs.length := by
  fun_induction scanComment cs with
  | case1 => simp
  | case2 => simp only [List.length_cons]; omega
  | case3 c cs _ text rest h ih => simp_all only [List.length_cons]; omega

theorem length_scanString_le (quote : Char) (cs : List Char) : (scanString quote cs).2.2.length ≤ cs.length := by
  fun_induction scanString quote cs with
  | case1 => simp
  | case2 => simp
  | case3 => simp
  | case4 => simp
  | case5 => simp_all only [List.length_cons]; omega
  | case6 d ds _ escaped closed value rest h _ _ ih =>
    have := Escape.length_read_le (d :: ds)
    simp_all only [List.length_cons, escaped]
    omega
  | case7 c cs _ _ _ closed value rest h ih => simp_all only [List.length_cons]; omega

private theorem length_dropWhile_le {α : Type} (p : α → Bool) (cs : List α) : (cs.dropWhile p).length ≤ cs.length :=
  (List.dropWhile_suffix p).length_le

namespace Numeral

theorem length_exponent_scan_le (cs : List Char) : (Exponent.scan cs).2.length ≤ cs.length := by
  fun_cases Exponent.scan cs <;> simp
  · exact Nat.le_trans (length_dropWhile_le _ _) (by simp)
  · exact Nat.le_trans (length_dropWhile_le _ _) (by omega)

theorem length_scanFraction_le (cs : List Char) : (scanFraction cs).2.length ≤ cs.length := by
  fun_cases scanFraction cs <;> simp
  exact Nat.le_trans (length_dropWhile_le _ _) (by omega)

theorem length_scan_lt {cs : List Char} (h : starts cs) : (scan cs).2.length < cs.length := by
  have key : ∀ ds : List Char, startsUnsigned ds →
      (scanFraction (ds.dropWhile Char.isDigit)).2.length < ds.length := by
    intro ds hd
    cases ds with
    | nil => simp [startsUnsigned] at hd
    | cons d ds =>
      by_cases hdot : d = '.'
      · subst hdot
        rw [List.dropWhile_cons_of_neg (by decide)]
        simp only [startsUnsigned] at hd
        simp only [scanFraction, hd, if_true]
        exact Nat.lt_succ_of_le (length_dropWhile_le _ _)
      · have hdig : d.isDigit = true := by
          unfold startsUnsigned at hd
          split at hd
          · simp_all
          · simpa using hd
        rw [List.dropWhile_cons_of_pos hdig]
        exact Nat.lt_succ_of_le (Nat.le_trans (length_scanFraction_le _) (length_dropWhile_le _ _))
  have hexp : ∀ ds : List Char, startsUnsigned ds →
      (Exponent.scan (scanFraction (ds.dropWhile Char.isDigit)).2).2.length < ds.length :=
    fun ds hd => Nat.lt_of_le_of_lt (length_exponent_scan_le _) (key ds hd)
  cases cs with
  | nil => simp [starts] at h
  | cons c cs =>
    simp only [starts] at h
    simp only [scan, scanSign]
    split at h
    · next hc =>
      rw [if_pos hc]
      exact Nat.lt_succ_of_lt (hexp cs h)
    · next hc =>
      rw [if_neg hc]
      exact hexp (c :: cs) h

end Numeral

namespace TokenKind

theorem length_scanQuoted_le (quote : Char) (cs : List Char) : (scanQuoted quote cs).2.length ≤ cs.length :=
  length_scanString_le quote cs

theorem length_scanHash_le (cs : List Char) : (scanHash cs).2.length ≤ cs.length := by
  unfold scanHash
  split
  · exact Name.length_read_le cs
  · simp

theorem length_scanAtKeyword_le (cs : List Char) : (scanAtKeyword cs).2.length ≤ cs.length := by
  unfold scanAtKeyword
  split
  · exact Name.length_read_le cs
  · simp

theorem length_scanNumeric_lt {cs : List Char} (h : Numeral.starts cs) : (scanNumeric cs).2.length < cs.length := by
  refine Nat.lt_of_le_of_lt ?_ (Numeral.length_scan_lt h)
  unfold scanNumeric
  dsimp only
  split
  · exact Name.length_read_le _
  · split <;> simp

theorem length_scanNameLike_lt {c : Char} {cs : List Char} (h : Name.starts (c :: cs)) :
    (scanNameLike (c :: cs)).2.length < (c :: cs).length := by
  have hr : (Name.read (c :: cs)).2.length < (c :: cs).length := by
    refine Name.length_read_lt ?_
    unfold Name.starts at h
    split at h
    · next heq =>
      obtain ⟨rfl, rfl⟩ := List.cons.inj heq
      exact Or.inl (by decide)
    · simp only [List.head?_cons, Option.any_some, Bool.or_eq_true] at h
      exact h.imp (fun hc => by simp [isNameChar, hc]) id
  refine Nat.lt_of_le_of_lt ?_ hr
  unfold scanNameLike
  dsimp only
  split <;> simp

theorem length_scanMarks_le (c : Char) (cs : List Char) : (scanMarks c cs).2.length ≤ cs.length := by
  unfold scanMarks
  split
  · simp
  · simp
  · split <;> simp

/-- A token takes at least one code point. -/
theorem length_scan_lt (c : Char) (cs : List Char) : (scan (c :: cs)).2.length < (c :: cs).length := by
  unfold scan
  split
  · simp_all
  · next ds heq =>
    obtain ⟨rfl, rfl⟩ := List.cons.inj heq
    have := length_scanComment_le ds
    simp only [List.length_cons]
    omega
  · next heq =>
    obtain ⟨rfl, rfl⟩ := List.cons.inj heq
    split
    · exact Nat.lt_succ_of_le (length_dropWhile_le _ _)
    split
    · exact Nat.lt_succ_of_le (length_scanQuoted_le _ _)
    split
    · exact Nat.lt_succ_of_le (length_scanHash_le _)
    split
    · exact Nat.lt_succ_of_le (length_scanAtKeyword_le _)
    split
    · next h => exact length_scanNumeric_lt h
    split
    · next h => exact length_scanNameLike_lt h
    · exact Nat.lt_succ_of_le (length_scanMarks_le _ _)

end TokenKind

/-! ### All tokens of a text -/

/-- The code points that have been read of a text when `rest` is left. -/
def consumed (cs rest : List Char) : List Char := cs.take (cs.length - rest.length)

namespace Token

/-- The tokens of a text that begins at `start`, of which the part up to `running` has been read; the last one marks
the end of the text. -/
def scanAll (start running : Location) : List Char → List Token
  | [] => [⟨.eof, start.shift running⟩]
  | c :: cs =>
    let scanned := TokenKind.scan (c :: cs)
    ⟨scanned.1, start.shift running⟩ ::
      scanAll start (running.after (consumed (c :: cs) scanned.2)) scanned.2
termination_by cs => cs.length
decreasing_by exact TokenKind.length_scan_lt c cs

end Token
end CssSelector
