import CssSelector.Location
import CssSelector.Proofs.Text.Preprocessed
import CssSelector.Text.Lines
import Mathlib.Data.List.Basic

/-!
The lines of a text as it is read. Every code point that is read as a line feed ends a line, and a carriage return with
a line feed behind it ends one line only. Places count these lines; the lines of the text as it was given are the same,
as far as they hold no carriage return and no form feed. Main statements: `after_preprocess`, `getElem?_lines`.
-/

namespace CssSelector
namespace Text

/-- The lines of a text, without what ends them. The last one has no end, and may be empty. -/
def breakLines : List Char → List (List Char)
  | [] => [[]]
  | '\r' :: '\n' :: cs => [] :: breakLines cs
  | c :: cs => if normalize c = '\n' then [] :: breakLines cs else (breakLines cs).modifyHead (c :: ·)

theorem breakLines_ne_nil (cs : List Char) : breakLines cs ≠ [] := by
  fun_induction breakLines cs with
  | case1 | case2 | case3 => exact List.cons_ne_nil _ _
  | case4 c cs _ _ ih => simpa using ih

theorem breakLines_cons_of_eq {c : Char} {cs : List Char} (h : ¬Divided [c] cs) (hbreak : normalize c = '\n') :
    breakLines (c :: cs) = [] :: breakLines cs := by
  rw [breakLines, if_pos hbreak]
  rintro ds rfl rfl
  exact h ⟨rfl, rfl⟩

theorem breakLines_cons_of_ne {c : Char} {cs : List Char} (hbreak : normalize c ≠ '\n') :
    breakLines (c :: cs) = (breakLines cs).modifyHead (c :: ·) := by
  rw [breakLines, if_neg hbreak]
  rintro ds rfl rfl
  exact hbreak (by decide)

/-- The lines with one more code point in front, the last line apart. -/
theorem modifyHead_cons_eq_append {c : Char} {ls above : List (List Char)} {x : List Char}
    (h : ls.modifyHead (c :: ·) = above ++ [x]) :
    (∃ y, x = c :: y ∧ above = [] ∧ ls = [y]) ∨ ∃ y as, above = (c :: y) :: as ∧ ls = (y :: as) ++ [x] := by
  cases ls with
  | nil => simp at h
  | cons y ls =>
    rw [List.modifyHead_cons] at h
    obtain ⟨rfl, hx⟩ | ⟨as, rfl, rfl⟩ := List.cons_eq_append_iff.mp h
    · obtain ⟨rfl, rfl⟩ := List.cons.inj hx
      exact .inl ⟨y, rfl, rfl, rfl⟩
    · exact .inr ⟨y, as, rfl, rfl⟩

/-- The lines behind an end of a line, the last one apart. -/
theorem exists_of_nil_cons_breakLines {cs : List Char} {above : List (List Char)} {x : List Char}
    (h : [] :: breakLines cs = above ++ [x]) : ∃ as, above = [] :: as ∧ breakLines cs = as ++ [x] := by
  obtain ⟨-, hx⟩ | h := List.cons_eq_append_iff.mp h
  · exact absurd (List.cons.inj hx).2.symm (breakLines_ne_nil cs)
  · exact h

/-! ### Places -/

/-- **Places count the lines of a text.** Behind a text one stands in its last line, behind the code points of that
line. -/
theorem after_preprocess {cs : List Char} {above : List (List Char)} {x : List Char}
    (h : breakLines cs = above ++ [x]) (l : Location) :
    (l.after (preprocess cs)).line = l.line + above.length ∧
      (l.after (preprocess cs)).column = (if above = [] then l.column else 1) + x.length := by
  fun_induction preprocess cs generalizing above x l with
  | case1 =>
    obtain ⟨hnil, hx⟩ : [] = above ∧ [] = x := by simpa [breakLines, List.singleton_eq_append_iff] using h
    simp [← hnil, ← hx]
  | case2 cs ih =>
    rw [breakLines] at h
    obtain ⟨as, rfl, has⟩ := exists_of_nil_cons_breakLines h
    obtain ⟨hline, hcolumn⟩ := ih has (l.next '\n')
    rw [Location.after_cons, hline, hcolumn, List.length_cons]
    exact ⟨Nat.add_right_comm .., by simp [Location.next]⟩
  | case3 c cs hc ih =>
    rw [Location.after_cons, Location.next]
    split
    · next hbreak =>
      rw [breakLines_cons_of_eq (not_divided_singleton hc) hbreak] at h
      obtain ⟨as, rfl, has⟩ := exists_of_nil_cons_breakLines h
      obtain ⟨hline, hcolumn⟩ := ih has ⟨l.line + 1, 1, l.offset + 1⟩
      rw [hline, hcolumn, List.length_cons]
      exact ⟨Nat.add_right_comm .., by simp⟩
    · next hbreak =>
      rw [breakLines_cons_of_ne hbreak] at h
      -- `c` stands in the last line if that is the only one, and only then its column counts
      obtain ⟨y, rfl, rfl, hy⟩ | ⟨y, as, rfl, has⟩ := modifyHead_cons_eq_append h
      · have hy : breakLines cs = [] ++ [y] := hy
        obtain ⟨hline, hcolumn⟩ := ih hy ⟨l.line, l.column + 1, l.offset + 1⟩
        rw [hline, hcolumn, List.length_cons]
        exact ⟨rfl, by simp; omega⟩
      · obtain ⟨hline, hcolumn⟩ := ih has ⟨l.line, l.column + 1, l.offset + 1⟩
        rw [hline, hcolumn]
        exact ⟨rfl, by simp⟩

/-! ### Chunks -/

/-- What follows a text goes on in its last line, unless the cut divides a line break. -/
theorem breakLines_append {as bs : List Char} {above below : List (List Char)} {x y : List Char}
    (h : ¬Divided as bs) (has : breakLines as = above ++ [x]) (hbs : breakLines bs = y :: below) :
    breakLines (as ++ bs) = above ++ (x ++ y) :: below := by
  fun_induction breakLines as generalizing above x with
  | case1 =>
    obtain ⟨hnil, hx⟩ : [] = above ∧ [] = x := by simpa [List.singleton_eq_append_iff] using has
    simpa [← hnil, ← hx] using hbs
  | case2 cs ih =>
    obtain ⟨above, rfl, hcut⟩ := exists_of_nil_cons_breakLines has
    have hcs : ¬Divided cs bs := fun hdivided => h ((hdivided.cons '\n').cons '\r')
    rw [List.cons_append, List.cons_append, breakLines, ih hcs hcut, List.cons_append]
  | case3 c cs hc hbreak ih =>
    obtain ⟨above, rfl, hcut⟩ := exists_of_nil_cons_breakLines has
    have hcs : ¬Divided cs bs := fun hdivided => h (hdivided.cons c)
    have hfirst : ¬Divided [c] (cs ++ bs) := not_divided_singleton_append (not_divided_singleton hc) h
    rw [List.cons_append, breakLines_cons_of_eq hfirst hbreak, ih hcs hcut, List.cons_append]
  | case4 c cs hc hbreak ih =>
    have hcs : ¬Divided cs bs := fun hdivided => h (hdivided.cons c)
    rw [List.cons_append, breakLines_cons_of_ne hbreak]
    obtain ⟨z, rfl, rfl, hz⟩ | ⟨z, above, rfl, hz⟩ := modifyHead_cons_eq_append has
    · have hz : breakLines cs = [] ++ [z] := hz
      rw [ih hcs hz]
      rfl
    · rw [ih hcs hz]
      rfl

/-! ### Lines as given -/

/-- Lines that begin alike are alike with one more code point in front. -/
theorem getElem?_modifyHead_congr (c : Char) {ls ms : List (List Char)} (hls : ls ≠ []) (hms : ms ≠ []) {n : Nat}
    (h : ls[n]?.getD [] = ms[n]?.getD []) :
    (ls.modifyHead (c :: ·))[n]?.getD [] = (ms.modifyHead (c :: ·))[n]?.getD [] := by
  obtain ⟨l, ls, rfl⟩ := List.exists_cons_of_ne_nil hls
  obtain ⟨m, ms, rfl⟩ := List.exists_cons_of_ne_nil hms
  cases n with
  | zero => exact congrArg (c :: ·) h
  | succ n => exact h

theorem normalize_ne_lineFeed {c : Char} {cs : List Char} (hfeed : c ≠ '\n')
    (h : '\r' ∉ c :: cs ∧ '\x0c' ∉ c :: cs) : normalize c ≠ '\n' := by
  have hreturn : c ≠ '\r' := (List.ne_of_not_mem_cons h.1).symm
  have hform : c ≠ '\x0c' := (List.ne_of_not_mem_cons h.2).symm
  rw [normalize, if_neg (by simp [hreturn, hform])]
  split
  · decide
  · exact hfeed

/-- **A line of the text as it was given is the line that is read,** if no line down to it holds a carriage return or
a form feed. -/
theorem getElem?_lines {cs : List Char} {n : Nat}
    (h : ∀ l ∈ (lines cs).take (n + 1), '\r' ∉ l ∧ '\x0c' ∉ l) :
    (lines cs)[n]?.getD [] = (breakLines cs)[n]?.getD [] := by
  fun_induction lines cs generalizing n with
  | case1 => cases n <;> rfl
  | case2 cs ih =>
    have hfeed : breakLines ('\n' :: cs) = [] :: breakLines cs := breakLines_cons_of_eq (by simp [Divided]) (by decide)
    rw [hfeed]
    cases n with
    | zero => rfl
    | succ n => exact ih fun l hl => h l (List.mem_cons_of_mem _ hl)
  | case3 cs ih =>
    rw [breakLines]
    cases n with
    | zero => rfl
    | succ n => exact ih fun l hl => h l (List.mem_cons_of_mem _ hl)
  | case4 c cs hfeed _ hnil ih =>
    have hbreak : normalize c ≠ '\n' := normalize_ne_lineFeed hfeed (h [c] (List.mem_cons_self ..))
    have hcs := ih (n := n) (by simp [hnil])
    rw [breakLines_cons_of_ne hbreak]
    refine getElem?_modifyHead_congr c (List.cons_ne_nil [] []) (breakLines_ne_nil cs) ?_
    rw [← hcs, hnil]
    cases n <;> rfl
  | case5 c cs hfeed _ l ls hl ih =>
    have hline := h (c :: l) (List.mem_cons_self ..)
    have hbreak : normalize c ≠ '\n' := normalize_ne_lineFeed hfeed hline
    have hfirst : '\r' ∉ l ∧ '\x0c' ∉ l :=
      ⟨List.not_mem_of_not_mem_cons hline.1, List.not_mem_of_not_mem_cons hline.2⟩
    rw [breakLines_cons_of_ne hbreak]
    refine getElem?_modifyHead_congr c (List.cons_ne_nil l ls) (breakLines_ne_nil cs) ?_
    rw [← hl]
    refine ih ?_
    rw [hl]
    exact List.forall_mem_cons.mpr ⟨hfirst, fun k hk => h k (List.mem_cons_of_mem _ hk)⟩

end Text
end CssSelector
