import CssSelector.Proofs.Token.Beginnings
import CssSelector.Proofs.Token.Partition
import Mathlib.Data.List.TFAE
import Mathlib.Tactic.TFAE

/-!
What is an identifier does not depend on where it stands: alone, behind a hash sign, behind an at sign or behind a
point. Each of these places asks in a way of its own whether an identifier begins. Main statement: `ofString_identifier_tfae`.
-/

namespace CssSelector

open CodePoint

theorem Escape.eq_of_starts {c : Char} {cs : List Char} (h : starts (c :: cs)) : c = '\\' := by
  by_contra hback
  have hnone : starts (c :: cs) = false := starts_eq_false fun d hd => by
    obtain rfl := Option.some.inj hd
    exact hback
  exact Bool.false_ne_true (hnone.symm.trans h)

namespace Name

/-- The text is one identifier from end to end, with or without escapes, and `name` is what it means. -/
structure Whole (name : String) (cs : List Char) : Prop where
  starts : starts cs
  read : read cs = (name.toList, [])

/-- An identifier begins with a code point of a name or with an escape, and never with a digit. -/
theorem exists_cons_of_starts {cs : List Char} (h : Name.starts cs) :
    ∃ c ds, cs = c :: ds ∧ (isNameChar c ∨ Escape.starts cs) ∧ c.isDigit = false := by
  cases cs with
  | nil => cases h
  | cons c ds =>
    refine ⟨c, ds, rfl, ?_⟩
    unfold Name.starts at h
    split at h
    · next heq =>
      obtain ⟨rfl, -⟩ := List.cons.inj heq
      exact ⟨.inl (by decide), by decide⟩
    · rw [List.head?_cons, Option.any_some, Bool.or_eq_true] at h
      rcases h with hstart | hescape
      · exact ⟨.inl (isNameChar_of_isNameStart hstart), isDigit_of_isNameStart hstart⟩
      · obtain rfl := Escape.eq_of_starts hescape
        exact ⟨.inr hescape, by decide⟩

end Name

namespace TokenKind

/-! ### Texts of one token -/

section

variable {k : TokenKind} (hk : k ≠ eof) {cs : List Char}
include hk

theorem scanAll_eq_cons_iff {ks : List TokenKind} :
    scanAll cs = k :: ks ↔ ∃ rest, scan cs = (k, rest) ∧ scanAll rest = ks := by
  constructor
  · intro h
    cases cs with
    | nil =>
      rw [scanAll] at h
      exact absurd (List.cons.inj h).1.symm hk
    | cons c cs =>
      rw [scanAll] at h
      obtain ⟨hkind, hks⟩ := List.cons.inj h
      exact ⟨_, by rw [← hkind], hks⟩
  · rintro ⟨rest, hscan, rfl⟩
    exact scanAll_of_scan hscan hk

/-- A text is one token if nothing is left behind it. -/
theorem scanAll_eq_pair_iff : scanAll cs = [k, eof] ↔ scan cs = (k, []) := by
  have hend {rest : List Char} : scanAll rest = [eof] ↔ rest = [] := by
    constructor
    · intro h
      cases rest with
      | nil => rfl
      | cons c rest =>
        rw [scanAll] at h
        exact absurd (List.cons.inj h).1 (scan_ne_eof (List.cons_ne_nil c rest))
    · rintro rfl
      rw [scanAll]
  rw [scanAll_eq_cons_iff hk]
  constructor
  · rintro ⟨rest, hscan, hrest⟩
    rw [hscan, hend.mp hrest]
  · exact fun h => ⟨[], h, hend.mpr rfl⟩

end

/-! ### The places of an identifier -/

section

variable {name : String} {cs : List Char}

theorem scan_eq_ident_iff : scan cs = (ident name, []) ↔ Name.Whole name cs := by
  constructor
  · intro h
    have hstarts : Name.starts cs := by
      rw [← (begins_scan cs).name, h]
      rfl
    refine ⟨hstarts, ?_⟩
    rw [scan_eq_scanNameLike hstarts, scanNameLike] at h
    dsimp only at h
    split at h
    · simp at h
    · obtain ⟨hname, hrest⟩ := Prod.mk.inj h
      rw [← ident.inj hname, String.toList_ofList, ← hrest]
  · rintro ⟨hstarts, hread⟩
    rw [scan_eq_scanNameLike hstarts, scanNameLike, hread]
    simp

theorem scan_eq_idHash_iff : scan ('#' :: cs) = (idHash name, []) ↔ Name.Whole name cs := by
  rw [scan_of_ne_slash (by decide), if_neg (by decide), if_neg (by decide), if_pos rfl, scanHash]
  constructor
  · intro h
    split at h
    · dsimp only at h
      split at h
      · next hstarts =>
        obtain ⟨hname, hrest⟩ := Prod.mk.inj h
        refine ⟨hstarts, ?_⟩
        rw [← idHash.inj hname, String.toList_ofList, ← hrest]
      · simp at h
    · simp at h
  · rintro ⟨hstarts, hread⟩
    obtain ⟨c, ds, rfl, hbegin, -⟩ := Name.exists_cons_of_starts hstarts
    rw [if_pos (by simpa using hbegin), hread]
    simp [hstarts]

theorem scan_eq_atKeyword_iff : scan ('@' :: cs) = (atKeyword name, []) ↔ Name.Whole name cs := by
  rw [scan_of_ne_slash (by decide), if_neg (by decide), if_neg (by decide), if_neg (by decide), if_pos rfl,
    scanAtKeyword]
  constructor
  · intro h
    split at h
    · next hstarts =>
      obtain ⟨hname, hrest⟩ := Prod.mk.inj h
      refine ⟨hstarts, ?_⟩
      rw [← atKeyword.inj hname, String.toList_ofList, ← hrest]
    · simp at h
  · rintro ⟨hstarts, hread⟩
    rw [if_pos hstarts, hread]
    simp

/-- A point is a mark unless a number begins with it. -/
theorem scan_point (cs : List Char) :
    scan ('.' :: cs) = if cs.head?.any Char.isDigit then scanNumeric ('.' :: cs) else (delim '.', cs) := by
  have hnumeral : Numeral.starts ('.' :: cs) = cs.head?.any Char.isDigit := by
    rw [Numeral.starts, if_neg (by decide), Numeral.startsUnsigned]
  split
  · next hdigit => exact scan_eq_scanNumeric (hnumeral.trans hdigit)
  · next hdigit => exact scan_delim (by decide) rfl (by simpa [hnumeral] using hdigit) fun d _ => by simp [ofMarks]

theorem scanAll_point_iff : scanAll ('.' :: cs) = [delim '.', ident name, eof] ↔ Name.Whole name cs := by
  rw [← scan_eq_ident_iff, ← scanAll_eq_pair_iff (by simp), scanAll_eq_cons_iff (by simp), scan_point]
  constructor
  · rintro ⟨rest, hscan, hrest⟩
    split at hscan
    · have hvalue := value?_scanNumeric ('.' :: cs)
      rw [hscan] at hvalue
      cases hvalue
    · rw [(Prod.mk.inj hscan).2]
      exact hrest
  · intro h
    have hstarts := (scan_eq_ident_iff.mp ((scanAll_eq_pair_iff (by simp)).mp h)).starts
    obtain ⟨c, ds, rfl, -, hdigit⟩ := Name.exists_cons_of_starts hstarts
    exact ⟨_, by simp [hdigit], h⟩

end

/-- **An identifier is one wherever it stands.** A text that is read as one identifier is read as the same one behind a
hash sign, an at sign or a point, and the other way round: it is what begins like an identifier and is a name up to its
end. -/
theorem ofString_identifier_tfae (text name : String) :
    [ofString text = [ident name, eof],
      ofString ("#" ++ text) = [idHash name, eof],
      ofString ("@" ++ text) = [atKeyword name, eof],
      ofString ("." ++ text) = [delim '.', ident name, eof],
      Name.Whole name (Text.preprocess text.toList)].TFAE := by
  have hbehind {mark : Char} (hmark : isLost mark = false) :
      ofString (mark.toString ++ text) = scanAll (mark :: Text.preprocess text.toList) := by
    have hkept : ∀ c ∈ [mark], isLost c = false := List.forall_mem_singleton.mpr hmark
    rw [ofString_eq, String.toList_append, Char.toString, String.toList_singleton, Text.preprocess_append hkept]
    rfl
  tfae_have 1 ↔ 5 := by
    rw [ofString_eq, scanAll_eq_pair_iff (by simp), scan_eq_ident_iff]
  tfae_have 2 ↔ 5 := by
    rw [← scan_eq_idHash_iff, ← scanAll_eq_pair_iff (by simp), ← hbehind (by decide)]
    rfl
  tfae_have 3 ↔ 5 := by
    rw [← scan_eq_atKeyword_iff, ← scanAll_eq_pair_iff (by simp), ← hbehind (by decide)]
    rfl
  tfae_have 4 ↔ 5 := by
    rw [← scanAll_point_iff, ← hbehind (by decide)]
    rfl
  tfae_finish

/-- A digit begins no name, escaped it begins one. -/
example : ofString "@\\31 a" = [atKeyword "1a", eof] := by cbv

end TokenKind
end CssSelector
