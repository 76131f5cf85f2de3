import CssSelector.Proofs.Printing.Scanning

/-!
Quoted text is read back. Every text can be written between double quotes but for those with a line break or NUL: a line
break breaks the string off, and NUL is not there any more when the text is read. Main statement: `ofString_encode`.
-/

namespace CssSelector

open CodePoint

namespace Quoted

/-! ### Writing -/

/-- A text with a backslash put before every `d`. -/
def mark (d : Char) (cs : List Char) : List Char := cs.flatMap fun c => if c = d then ['\\', c] else [c]

/-- Backslashes are escaped first, then double quotes. -/
theorem escape_eq_mark (cs : List Char) : escape cs = mark '"' (mark '\\' cs) := by
  induction cs with
  | nil => rfl
  | cons c cs ih =>
    rw [escape, ih]
    by_cases hslash : c = '\\'
    · simp [mark, hslash]
    · by_cases hquote : c = '"' <;> simp [mark, hslash, hquote]

theorem escape_append (cs ds : List Char) : escape (cs ++ ds) = escape cs ++ escape ds := by
  simp [escape_eq_mark, mark]

theorem escape_cons_of_isLost {c : Char} (h : isLost c) (cs : List Char) : escape (c :: cs) = c :: escape cs := by
  rw [escape, if_neg]
  rintro (rfl | rfl) <;> exact absurd h (by decide)

theorem toList_encode (s : String) : (encode s).toList = '"' :: (escape s.toList ++ ['"']) := by
  rw [encode, String.toList_ofList, List.cons_append]

end Quoted

/-! ### Reading -/

theorem CodePoint.ne_feed_of_isLost {cs : List Char} (h : ∀ c ∈ cs, isLost c = false) : ∀ c ∈ cs, c ≠ '\n' := by
  rintro c hc rfl
  exact absurd (h _ hc) (by decide)

/-- Of a lost code point a line feed is left, or the replacement character of NUL. -/
theorem Text.preprocess_cons_of_isLost {c : Char} (h : isLost c) (cs : List Char) :
    ∃ d ds, preprocess (c :: cs) = d :: ds ∧ (d = '\n' ∨ d = replacement ∧ c = '\x00') := by
  by_cases hpair : c = '\r' ∧ ∃ ds, cs = '\n' :: ds
  · obtain ⟨rfl, ds, rfl⟩ := hpair
    exact ⟨'\n', preprocess ds, by rw [preprocess], .inl rfl⟩
  · have hcons : preprocess (c :: cs) = normalize c :: preprocess cs := by
      rw [preprocess]
      rintro ds rfl rfl
      exact hpair ⟨rfl, ds, rfl⟩
    refine ⟨normalize c, preprocess cs, hcons, ?_⟩
    have hc : c = '\n' ∨ c = '\r' ∨ c = '\x0c' ∨ c = '\x00' := by simpa [isLost] using h
    rcases hc with rfl | rfl | rfl | rfl
    · exact .inl rfl
    · exact .inl rfl
    · exact .inl rfl
    · exact .inr ⟨rfl, rfl⟩

namespace TokenKind

/-- Quoted text is read back, whatever comes behind it. -/
theorem ofString_encode_append {s : String} (h : ∀ c ∈ s.toList, isLost c = false) (rest : String) :
    ofString (Quoted.encode s ++ rest) = quotedString s :: ofString rest := by
  have hencoded : ∀ c ∈ (Quoted.encode s).toList, isLost c = false := by
    intro c hc
    rw [Quoted.toList_encode, List.mem_cons, List.mem_append, List.mem_singleton] at hc
    rcases hc with rfl | hc | rfl
    · rfl
    · exact isLost_of_mem_escape h c hc
    · rfl
  rw [ofString_eq, ofString_eq, String.toList_append, Text.preprocess_append hencoded]
  exact scanAll_of_scan (scan_quoted (ne_feed_of_isLost h) _) (by simp)

/-- A text with a line break or NUL is not read back. -/
theorem head_ofString_encode_ne {s : String} {c : Char} (hc : c ∈ s.toList) (hlost : isLost c) :
    (ofString (Quoted.encode s)).head? ≠ some (quotedString s) := by
  -- Up to the first such code point the text is read as it was written.
  obtain ⟨x, hfind⟩ := Option.isSome_iff_exists.mp (List.find?_isSome.mpr ⟨c, hc, hlost⟩)
  obtain ⟨hx, a, b, hs, ha⟩ := List.find?_eq_some_iff_append.mp hfind
  have ha : ∀ c ∈ a, isLost c = false := fun c hc => by simpa using ha c hc
  obtain ⟨y, ds, hy, hkind⟩ := Text.preprocess_cons_of_isLost hx (Quoted.escape b ++ ['"'])
  have hbefore : ∀ c ∈ '"' :: Quoted.escape a, isLost c = false :=
    List.forall_mem_cons.mpr ⟨rfl, isLost_of_mem_escape ha⟩
  have htext : Text.preprocess (Quoted.encode s).toList = '"' :: (Quoted.escape a ++ y :: ds) := by
    rw [Quoted.toList_encode, hs, Quoted.escape_append, Quoted.escape_cons_of_isLost hx, List.append_assoc,
      List.cons_append, ← List.cons_append, Text.preprocess_append hbefore, hy]
    rfl
  rw [ofString_eq, htext, scanAll, List.head?_cons, scan_of_ne_slash (by decide), if_neg (by decide),
    if_pos (.inl rfl), scanQuoted, scanString_escape_append (ne_feed_of_isLost ha)]
  rcases hkind with rfl | ⟨rfl, rfl⟩
  · have hbroken : scanString '"' ('\n' :: ds) = (false, [], '\n' :: ds) := by
      rw [scanString.eq_def]
      rfl
    rw [hbroken]
    simp
  · rw [scanString_plain (by decide) (by decide) (by decide)]
    dsimp only
    split
    · intro hsame
      have hvalue := congrArg String.toList (quotedString.inj (Option.some.inj hsame))
      rw [String.toList_ofList, hs] at hvalue
      exact absurd (List.cons.inj (List.append_cancel_left hvalue)).1 (by decide)
    · simp

/-- **Quoted text is read back if there is no line break and no NUL in it.** Backslashes are doubled, then double quotes
are escaped. The string and the end of the text is then all there is; whatever comes behind the quoted text is read as
it is on its own. -/
theorem ofString_encode (s : String) :
    (Quoted.encode s).toList = '"' :: (Quoted.mark '"' (Quoted.mark '\\' s.toList) ++ ['"']) ∧
      (ofString (Quoted.encode s) = [quotedString s, eof] ↔ ∀ c ∈ s.toList, c ∉ ['\n', '\r', '\x0c', '\x00']) ∧
      ((∀ c ∈ s.toList, c ∉ ['\n', '\r', '\x0c', '\x00']) →
        ∀ rest, ofString (Quoted.encode s ++ rest) = quotedString s :: ofString rest) := by
  have hlost (c : Char) : c ∉ ['\n', '\r', '\x0c', '\x00'] ↔ isLost c = false := by
    rw [isLost, ← Bool.not_eq_true, List.contains_iff_mem]
  simp only [hlost]
  refine ⟨by rw [Quoted.toList_encode, Quoted.escape_eq_mark], ⟨fun h c hc => ?_, fun h => ?_⟩, ofString_encode_append⟩
  · by_contra hlost
    exact head_ofString_encode_ne hc (by simpa using hlost) (by rw [h, List.head?_cons])
  · have hread := ofString_encode_append h ""
    rw [String.append_empty] at hread
    rw [hread, ofString_eq, String.toList_empty, Text.preprocess, scanAll]

/-- The text `a\"b"` with a backslash and two quotes is read back before `c`. -/
theorem ofString_encode_marks :
    (∀ c ∈ "a\\\"b\"".toList, c ∉ ['\n', '\r', '\x0c', '\x00']) ∧
      ofString (Quoted.encode "a\\\"b\"" ++ "c") = [quotedString "a\\\"b\"", ident "c", eof] := by
  have h : ∀ c ∈ "a\\\"b\"".toList, c ∉ ['\n', '\r', '\x0c', '\x00'] := by simp
  have hrest : ofString "c" = [ident "c", eof] := by with_unfolding_all rfl
  exact ⟨h, by rw [(ofString_encode _).2.2 h, hrest]⟩

end TokenKind
end CssSelector
