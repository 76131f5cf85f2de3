import CssSelector.Proofs.Token.Printing

/-!
What is left of a text before it is read. A preprocessed text is no longer than the text, holds nothing that does not
stay as it is, and holds no backslash where the text holds none. A text that comes in chunks is preprocessed chunk by
chunk, which makes a difference only where a cut divides a line break. Main statement: `Source.unread_of_chunks`.
-/

namespace CssSelector
namespace Text

open CodePoint

theorem length_preprocess_le (cs : List Char) : (preprocess cs).length ≤ cs.length := by
  fun_induction preprocess cs with
  | case1 => exact Nat.le_refl 0
  | case2 cs ih => exact Nat.le_trans (Nat.succ_le_succ ih) (Nat.le_succ _)
  | case3 c cs _ ih => exact Nat.succ_le_succ ih

theorem preprocess_of_isKept {cs : List Char} (h : ∀ c ∈ cs, isKept c) : preprocess cs = cs := by
  induction cs with
  | nil => rfl
  | cons c cs ih =>
    obtain ⟨hc, hcs⟩ := List.forall_mem_cons.mp h
    have hc : c ≠ '\r' ∧ c ≠ '\x0c' ∧ c ≠ '\x00' := by simpa [isKept] using hc
    rw [preprocess, ih hcs, normalize, if_neg (by simp [hc]), if_neg hc.2.2]
    rintro ds rfl
    exact absurd rfl hc.1

theorem isKept_normalize (c : Char) : isKept (normalize c) := by
  unfold normalize
  split
  · decide
  · next hbreak =>
    split
    · decide
    · next hnul => simp_all [isKept]

theorem isKept_of_mem_preprocess (cs : List Char) : ∀ c ∈ preprocess cs, isKept c := by
  fun_induction preprocess cs with
  | case1 => simp
  | case2 cs ih => exact List.forall_mem_cons.mpr ⟨by decide, ih⟩
  | case3 c cs _ ih => exact List.forall_mem_cons.mpr ⟨isKept_normalize c, ih⟩

theorem normalize_ne {c : Char} (h : c ≠ '\\') : normalize c ≠ '\\' := by
  unfold normalize
  split
  · decide
  split
  · decide
  · exact h

theorem notMem_preprocess {cs : List Char} (h : '\\' ∉ cs) : '\\' ∉ preprocess cs := by
  fun_induction preprocess cs with
  | case1 => exact h
  | case2 cs ih =>
    have hcs : '\\' ∉ cs := fun hmem => h (List.mem_cons_of_mem _ (List.mem_cons_of_mem _ hmem))
    simpa using ih hcs
  | case3 c cs _ ih =>
    obtain ⟨hc, hcs⟩ : c ≠ '\\' ∧ '\\' ∉ cs := by simpa [eq_comm] using h
    simpa [(normalize_ne hc).symm] using ih hcs

/-! ### Chunks -/

/-- The cut between two texts divides a line break of two code points. -/
def Divided (as bs : List Char) : Prop := as.getLast? = some '\r' ∧ bs.head? = some '\n'

theorem Divided.cons {as bs : List Char} (h : Divided as bs) (c : Char) : Divided (c :: as) bs := by
  refine ⟨?_, h.2⟩
  rw [List.getLast?_cons, h.1, Option.getD_some]

theorem not_divided_singleton {c : Char} {cs : List Char} (h : ∀ ds, c = '\r' → cs = '\n' :: ds → False) :
    ¬Divided [c] cs := by
  rintro ⟨hlast, hhead⟩
  obtain ⟨ds, rfl⟩ := List.head?_eq_some_iff.mp hhead
  exact h ds (by simpa using hlast) rfl

/-- The first code point of a text goes together with the next one only if there is none of the text in between. -/
theorem not_divided_singleton_append {c : Char} {cs bs : List Char} (hc : ¬Divided [c] cs)
    (h : ¬Divided (c :: cs) bs) : ¬Divided [c] (cs ++ bs) := by
  cases cs with
  | nil => exact h
  | cons d cs => exact hc

theorem not_divided_cons {c : Char} {cs bs : List Char} (hc : ¬Divided [c] (cs ++ bs)) (h : ¬Divided cs bs) :
    ¬Divided (c :: cs) bs := by
  cases cs with
  | nil => exact hc
  | cons d cs => simpa [Divided] using h

theorem preprocess_cons_of_not_divided {c : Char} {cs : List Char} (h : ¬Divided [c] cs) :
    preprocess (c :: cs) = normalize c :: preprocess cs := by
  rw [preprocess]
  rintro ds rfl rfl
  exact h ⟨rfl, rfl⟩

/-- Two texts may be preprocessed each on its own, unless the cut between them divides a line break. -/
theorem preprocess_append_of_not_divided {as bs : List Char} (h : ¬Divided as bs) :
    preprocess (as ++ bs) = preprocess as ++ preprocess bs := by
  fun_induction preprocess as with
  | case1 => rfl
  | case2 cs ih =>
    have hcs : ¬Divided cs bs := fun hdivided => h ((hdivided.cons '\n').cons '\r')
    rw [List.cons_append, List.cons_append, preprocess, ih hcs, List.cons_append]
  | case3 c cs hc ih =>
    have hcs : ¬Divided cs bs := fun hdivided => h (hdivided.cons c)
    have hfirst : ¬Divided [c] (cs ++ bs) := not_divided_singleton_append (not_divided_singleton hc) h
    rw [List.cons_append, preprocess_cons_of_not_divided hfirst, ih hcs, List.cons_append]

/-- Every cut through a preprocessed text is made by a cut through the text that divides no line break. -/
theorem exists_append_of_preprocess_eq {cs ps qs : List Char} (h : preprocess cs = ps ++ qs) :
    ∃ as bs, cs = as ++ bs ∧ ¬Divided as bs ∧ preprocess as = ps ∧ preprocess bs = qs := by
  have hfront (cs : List Char) : ¬Divided [] cs := fun hdivided => absurd hdivided.1 (by simp)
  fun_induction preprocess cs generalizing ps with
  | case1 =>
    obtain ⟨rfl, rfl⟩ := List.append_eq_nil_iff.mp h.symm
    exact ⟨[], [], rfl, hfront [], rfl, rfl⟩
  | case2 cs ih =>
    obtain ⟨rfl, rfl⟩ | ⟨ps, rfl, hcs⟩ := List.cons_eq_append_iff.mp h
    · exact ⟨[], _, rfl, hfront _, rfl, by rw [preprocess]⟩
    · obtain ⟨as, bs, rfl, hcut, rfl, rfl⟩ := ih hcs
      have hfeed : ¬Divided ('\n' :: as) bs := not_divided_cons (by simp [Divided]) hcut
      exact ⟨'\r' :: '\n' :: as, bs, rfl, by simpa [Divided] using hfeed, by rw [preprocess], rfl⟩
  | case3 c cs hc ih =>
    obtain ⟨rfl, rfl⟩ | ⟨ps, rfl, hcs⟩ := List.cons_eq_append_iff.mp h
    · exact ⟨[], _, rfl, hfront _, rfl, preprocess_cons_of_not_divided (not_divided_singleton hc)⟩
    · obtain ⟨as, bs, rfl, hcut, rfl, rfl⟩ := ih hcs
      have hfirst : ¬Divided [c] (as ++ bs) := not_divided_singleton hc
      have has : ¬Divided [c] as := not_divided_singleton fun ds hreturn hds => hc (ds ++ bs) hreturn (hds ▸ rfl)
      exact ⟨c :: as, bs, rfl, not_divided_cons hfirst hcut, preprocess_cons_of_not_divided has, rfl⟩

/-- A line break that is divided counts twice, once in each text. -/
theorem length_preprocess_of_divided {as bs : List Char} (h : Divided as bs) :
    (preprocess as ++ preprocess bs).length = (preprocess (as ++ bs)).length + 1 := by
  obtain ⟨as, rfl⟩ := List.getLast?_eq_some_iff.mp h.1
  obtain ⟨bs, rfl⟩ := List.head?_eq_some_iff.mp h.2
  have hreturn (ds : List Char) : preprocess (as ++ '\r' :: ds) = preprocess as ++ preprocess ('\r' :: ds) :=
    preprocess_append_of_not_divided fun hdivided => absurd hdivided.2 (by simp)
  have hfeed : preprocess ('\n' :: bs) = '\n' :: preprocess bs :=
    preprocess_cons_of_not_divided fun hdivided => absurd hdivided.1 (by simp)
  rw [List.append_assoc, List.singleton_append, hreturn, hreturn, preprocess, hfeed]
  simp [preprocess]
  omega

theorem preprocess_append_iff (as bs : List Char) :
    preprocess as ++ preprocess bs = preprocess (as ++ bs) ↔ ¬Divided as bs := by
  refine ⟨fun heq hdivided => ?_, fun h => (preprocess_append_of_not_divided h).symm⟩
  have hlength := length_preprocess_of_divided hdivided
  rw [heq] at hlength
  exact Nat.succ_ne_self _ hlength.symm

end Text

namespace Source

/-- **A text is preprocessed once and for all, chunk by chunk.** What has been loaded holds no carriage return, no form
feed and no NUL, and stays as it is when it is loaded again. A second chunk comes behind the first one, and both are
what the whole text would be, exactly if the cut between them does not divide a line break. -/
theorem unread_of_chunks (a b : String) :
    (∀ c ∈ (ofString a).unread, c ≠ '\r' ∧ c ≠ '\x0c' ∧ c ≠ '\x00') ∧
    ofString (String.ofList (ofString a).unread) = ofString a ∧
    ((ofString a).append b).unread = (ofString a).unread ++ (ofString b).unread ∧
    ((ofString a).unread ++ (ofString b).unread = (ofString (a ++ b)).unread ↔
      ¬(a.toList.getLast? = some '\r' ∧ b.toList.head? = some '\n')) := by
  refine ⟨fun c hc => ?_, ?_, rfl, ?_⟩
  · simpa [CodePoint.isKept] using Text.isKept_of_mem_preprocess a.toList c hc
  · have hkept := Text.preprocess_of_isKept (Text.isKept_of_mem_preprocess a.toList)
    rw [ofString, ofString, String.toList_ofList, hkept]
  · rw [ofString, ofString, ofString, String.toList_append]
    exact Text.preprocess_append_iff a.toList b.toList

/-- A line break between `a` and `b` is one line feed, or two if its halves come in two chunks. -/
example : (ofString "a\r\nb").unread = ['a', '\n', 'b'] ∧
    ((ofString "a\r").append "\nb").unread = ['a', '\n', '\n', 'b'] := by decide

end Source
end CssSelector
