import CssSelector.Proofs.Printing.Groups
import CssSelector.Proofs.Token.Beginnings
import Mathlib.Data.List.Chain

/-!
Which tokens may stand beside one another. What a token needs of the text behind it is decided by what the next token
is, so tokens that follow each other in a text without escapes may be written one behind the other, but for numbers:
these lose a sign that they do not need. Main statement: `Scans.of_follows`.
-/

namespace CssSelector

open CodePoint

namespace TokenKind

/-! ### What stands behind a token -/

/-- Digits do not stand behind a token that would go on with them, unless they have a hyphen in front. -/
def Apart (k k' : TokenKind) : Prop := k.takesDigits → ∀ x ∈ k'.value?, x.isNegative

instance (k k' : TokenKind) : Decidable (Apart k k') := inferInstanceAs (Decidable (_ → _))

/-- A token may be read in front of another one. -/
def Follows (k k' : TokenKind) : Prop := k'.isCloser ∨ ∃ cs, k.Leaves cs ∧ (scan cs).1 = k'

theorem mem_of_ofMarks {c d : Char} (h : ofMarks c d ≠ none) : d ∈ ['=', '|'] := by
  revert h
  fun_cases ofMarks c d with
  | case7 => simp
  | _ => exact fun _ => by decide

/-- Nothing goes on with a closing token, and nothing goes on where the text ends. -/
theorem stops_of_closing (k : TokenKind) {cs : List Char} (h : ∀ c ∈ cs.head?, c ∈ [')', ']', '\x7d']) : k.Stops cs := by
  have hhead : ∀ c ∈ cs.head?, isNameChar c = false ∧ c ≠ '(' ∧ isBlank c = false ∧
      c ∉ ['\\', '+', '.'] ∧ c ∉ ['%', '*'] ∧ c ∉ ['=', '|'] := by
    intro c hc
    have hmem := h c hc
    simp only [List.mem_cons, List.not_mem_nil, or_false] at hmem
    rcases hmem with rfl | rfl | rfl <;> decide
  have hstarts : Name.starts cs = false ∧ Numeral.starts cs = false := by
    cases cs with
    | nil => decide
    | cons c cs => exact starts_eq_false (hhead c rfl).1 (hhead c rfl).2.2.2.1 cs
  have hstops : Name.Stops cs := fun c hc => ⟨(hhead c hc).1, fun hback => (hhead c hc).2.2.2.1 (by simp [hback])⟩
  refine ⟨?_, fun _ hnumeral => absurd hnumeral (by simp [hstarts.2])⟩
  cases k with
  | whitespace => exact fun c hc => (hhead c hc).2.2.1
  | ident => exact fun c hc => ⟨(hstops c hc).1, (hstops c hc).2, (hhead c hc).2.1⟩
  | atKeyword | hash | idHash | dimension => exact hstops
  | number => exact ⟨hstarts.1, fun hc => (hhead '%' hc).2.2.2.2.1 (by simp)⟩
  | delim c =>
    refine ⟨fun _ => hstops, fun _ => hstarts.1, fun _ hc => (hhead '*' hc).2.2.2.2.1 (by simp), fun d hd => ?_⟩
    by_contra hmarks
    exact (hhead d hd).2.2.2.2.2 (mem_of_ofMarks hmarks)
  | _ => trivial

section

variable {k : TokenKind} {cs ds : List Char}

theorem numeral_stops_of_begins (hbegins : k.Begins cs) (hnegative : ∀ x ∈ k.value?, x.isNegative) :
    Numeral.Stops cs := by
  intro hstarts
  have hvalue := hbegins.value
  rw [if_pos hstarts] at hvalue
  exact (Numeral.isNegative_value_scan cs).mp (hnegative _ hvalue)

/-- Whether a name goes on is decided by the kind of what comes next. -/
theorem name_stops_of_scan_eq (hsame : (scan ds).1 = (scan cs).1) (hnegative : ∀ x ∈ (scan ds).1.value?, x.isNegative)
    (h : Name.Stops cs) : Name.Stops ds := by
  have hcs := begins_scan cs
  have hds := begins_scan ds
  have hname : Name.starts ds = false := by
    rw [← hds.name, hsame, hcs.name, Name.starts_eq_false_of_stops h]
  have hnumeral : Numeral.starts ds = false := by
    by_contra hstarts
    have hvalue := hds.value
    rw [if_pos (by simpa using hstarts), hsame, hcs.value] at hvalue
    have hcsStarts : Numeral.starts cs := by
      by_contra hnone
      rw [if_neg hnone] at hvalue
      cases hvalue
    have hhead := numeral_stops_of_begins hcs (hsame ▸ hnegative) hcsStarts
    exact absurd (h '-' hhead).1 (by decide)
  intro c hc
  obtain ⟨ds, rfl⟩ := List.head?_eq_some_iff.mp hc
  by_contra hne
  have hother : isBlank c = false ∧ c ∉ ['/', '"', '\x27', '#', '@'] := by
    by_cases hchar : isNameChar c
    · refine ⟨isBlank_of_isNameChar hchar, fun hmem => ?_⟩
      simp only [List.mem_cons, List.not_mem_nil, or_false] at hmem
      rcases hmem with rfl | rfl | rfl | rfl | rfl <;> exact absurd hchar (by decide)
    · obtain rfl : c = '\\' := by
        by_contra hback
        exact hne ⟨by simpa using hchar, hback⟩
      decide
  have hmark := mark?_scan hother.1 hother.2 hname hnumeral
  rw [hsame] at hmark
  exact hne (h c (hcs.mark c hmark))

/-- What a token needs of the text behind it is decided by the kind of what comes next. -/
theorem Leaves.stops (h : k.Leaves cs) (hsame : (scan ds).1 = (scan cs).1) (hapart : k.Apart (scan ds).1) :
    k.Stops ds := by
  refine ⟨?_, fun htakes => numeral_stops_of_begins (begins_scan ds) (hapart htakes)⟩
  have hname (htakes : k.takesDigits) : Name.Stops cs → Name.Stops ds := name_stops_of_scan_eq hsame (hapart htakes)
  have hstarts : Name.starts ds = Name.starts cs := by rw [← (begins_scan ds).name, hsame, (begins_scan cs).name]
  cases k with
  | whitespace =>
    intro c hc
    by_contra hblank
    have hwhite := (begins_scan ds).blank.mpr ⟨c, hc, by simpa using hblank⟩
    obtain ⟨d, hd, hblank⟩ := (begins_scan cs).blank.mp (hsame ▸ hwhite)
    exact Bool.false_ne_true ((h d hd).symm.trans hblank)
  | ident =>
    have hstops := hname rfl fun c hc => ⟨(h c hc).1, (h c hc).2.1⟩
    refine fun c hc => ⟨(hstops c hc).1, (hstops c hc).2, ?_⟩
    rintro rfl
    exact (h '(' (head?_of_scan_eq (by decide) (by decide) (by decide) hsame hc)).2.2 rfl
  | atKeyword | hash | idHash | dimension => exact hname rfl h
  | number =>
    exact ⟨hstarts.trans h.1, fun hc => h.2 (head?_of_scan_eq (by decide) (by decide) (by decide) hsame hc)⟩
  | delim c =>
    obtain ⟨hstops, hat, hslash, hmarks⟩ := h
    refine ⟨fun hc => hname ?_ (hstops hc), fun hc => hstarts.trans (hat hc), fun hc hhead => ?_, fun d hd => ?_⟩
    · simp only [List.mem_cons, List.not_mem_nil, or_false] at hc
      rcases hc with rfl | rfl <;> rfl
    · exact hslash hc (head?_of_scan_eq (by decide) (by decide) (by decide) hsame hhead)
    · by_contra hne
      have hmem := mem_of_ofMarks hne
      simp only [List.mem_cons, List.not_mem_nil, or_false] at hmem
      refine hne (hmarks d (head?_of_scan_eq ?_ ?_ ?_ hsame hd)) <;> rcases hmem with rfl | rfl <;> decide
  | _ => trivial

end
end TokenKind

/-! ### Texts -/

/-- The texts of tokens one behind the other. -/
def TokenKind.write (ks : List TokenKind) : List Char := ks.flatMap (·.text.toList)

theorem TokenKind.write_cons (k : TokenKind) (ks : List TokenKind) : write (k :: ks) = k.text.toList ++ write ks :=
  List.flatMap_cons

theorem TokenKind.write_append (ks ls : List TokenKind) : write (ks ++ ls) = write ks ++ write ls :=
  List.flatMap_append

theorem TokenKind.head?_write_of_isCloser {k : TokenKind} (h : k.isCloser) (ks : List TokenKind) :
    ∀ c ∈ (write (k :: ks)).head?, c ∈ [')', ']', '\x7d'] := by
  intro c hc
  rw [write_cons] at hc
  cases k with
  | rightParen | rightBracket | rightCurly =>
    obtain rfl := Option.some.inj hc
    decide
  | _ => cases h

namespace Scans

open TokenKind

theorem exists_scan {cs rest : List Char} {k : TokenKind} {ks : List TokenKind} (h : Scans cs (k :: ks) rest) :
    ∃ ds, scan cs = (k, ds) ∧ Scans ds ks rest := by
  cases h with
  | cons hk _ hs => exact ⟨_, hk, hs⟩

theorem of_scan {cs ds rest : List Char} {k : TokenKind} {ks : List TokenKind} (hk : scan cs = (k, ds)) (hne : k ≠ eof)
    (hs : Scans ds ks rest) : Scans cs (k :: ks) rest := by
  cases cs with
  | nil => exact absurd (congrArg Prod.fst hk).symm hne
  | cons c cs => exact .cons hk hne hs

/-- The tokens of a text without escapes follow each other. -/
theorem isChain_follows {cs rest : List Char} {ks : List TokenKind} (h : Scans cs ks rest) (hslash : '\\' ∉ cs)
    (hkept : ∀ c ∈ cs, isKept c) : ks.IsChain Follows ∧ ∀ k ∈ ks, k.Spelled := by
  induction h with
  | nil => simp
  | @cons c cs ds _ k ks hk hne hs ih =>
    have hread := readOf_scan hslash hkept
    have hsuffix := scan_suffix (c :: cs)
    rw [hk] at hread hsuffix
    obtain ⟨hchain, hspelled⟩ := ih (fun hmem => hslash (hsuffix.subset hmem)) fun d hd => hkept d (hsuffix.subset hd)
    refine ⟨?_, List.forall_mem_cons.mpr ⟨hread.spelled, hspelled⟩⟩
    cases hs with
    | nil => exact .singleton k
    | cons hk' => exact .cons_cons (.inr ⟨_, hread.leaves, congrArg Prod.fst hk'⟩) hchain

/-- **Tokens that may follow each other are read back when they are written without anything in between**, if no digits
go on with what is before them. -/
theorem of_follows {ks : List TokenKind} (hspelled : ∀ k ∈ ks, k.Spelled) (hexact : ∀ k ∈ ks, k.IsExact)
    (hunit : ∀ k ∈ ks, k.hidesExponent = false) (hfollows : ks.IsChain Follows) (hapart : ks.IsChain Apart) :
    Scans (write ks) ks [] := by
  induction ks with
  | nil => exact .nil []
  | cons k ks ih =>
    obtain ⟨hk, hspelled⟩ := List.forall_mem_cons.mp hspelled
    obtain ⟨hkexact, hexact⟩ := List.forall_mem_cons.mp hexact
    obtain ⟨hkunit, hunit⟩ := List.forall_mem_cons.mp hunit
    have hrest := ih hspelled hexact hunit hfollows.tail hapart.tail
    have hstops : k.Stops (write ks) := by
      cases ks with
      | nil => exact stops_of_closing k (by simp [write])
      | cons k' ks =>
        obtain ⟨hfirst, -⟩ := List.isChain_cons_cons.mp hfollows
        obtain ⟨happart, -⟩ := List.isChain_cons_cons.mp hapart
        obtain ⟨ds, hscan, -⟩ := hrest.exists_scan
        rcases hfirst with hcloser | ⟨cs, hleaves, hkind⟩
        · exact stops_of_closing k (head?_write_of_isCloser hcloser ks)
        · have hsame : (scan (write (k' :: ks))).1 = (scan cs).1 := by rw [hscan, hkind]
          exact hleaves.stops hsame (by rwa [hscan])
    have hne : k ≠ eof := by
      rintro rfl
      exact hk
    rw [write_cons]
    exact .of_scan (scan_text hk hkexact hkunit hstops) hne hrest

end Scans
end CssSelector
