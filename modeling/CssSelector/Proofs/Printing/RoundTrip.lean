import CssSelector.Proofs.Printing.Lists

/-!
A printed list of selectors is read back as it was. Main statement: `parseString_intercalate_text`.
-/

namespace CssSelector

open SelectorList

/-! ### Lists of texts -/

/-- A text, and further ones that have a comma each in front. -/
theorem append_toList_eq_intercalate {α : Type} (text : α → String) (rest : List α → String) (hnil : rest [] = "")
    (hcons : ∀ x xs, rest (x :: xs) = ", " ++ text x ++ rest xs) (x : α) (xs : List α) :
    (text x).toList ++ (rest xs).toList = [',', ' '].intercalate ((x :: xs).map (text · |>.toList)) := by
  induction xs generalizing x with
  | nil => simp [hnil]
  | cons y ys ih =>
    have h := ih y
    rw [List.map_cons] at h
    rw [List.map_cons, List.map_cons, List.intercalate_cons_cons, ← h, hcons]
    simp

theorem Selector.toList_textList (ss : List Selector) :
    (Selector.textList ss).toList = [',', ' '].intercalate (ss.map (·.text.toList)) := by
  cases ss with
  | nil => rfl
  | cons s ss =>
    rw [Selector.textList, String.toList_append]
    exact append_toList_eq_intercalate text textRest (by rw [textRest]) (fun s ss => by rw [textRest]) s ss

theorem RelativeSelector.toList_textList (rs : List RelativeSelector) :
    (RelativeSelector.textList rs).toList = [',', ' '].intercalate (rs.map (·.text.toList)) := by
  cases rs with
  | nil => rfl
  | cons r rs =>
    rw [RelativeSelector.textList, String.toList_append]
    exact append_toList_eq_intercalate text textRest (by rw [textRest]) (fun r rs => by rw [textRest]) r rs

/-! ### Levels -/

section

variable {n : Nat} {g : Grammar} (hg : g.namespaces = .empty)
  (hsimple : ∀ s, SimpleSelector.Printable n s →
    Writes (n + 1) EndsPart s.text.toList (SimpleSelector.Spelling g · s))
include hg hsimple

theorem Selector.branchWrites {s : Selector} (h : s.Printable n) :
    Branch.Writes (n + 1) g false s.text.toList (.absolute s) := by
  refine ⟨(Selector.writes hg hsimple h).imp (fun _ hrest => hrest) fun us hus => ?_, fun rest c hc => ?_⟩
  · simpa using Branch.Spelling.absolute .nil hus .nil
  · exact ((h.startsCompound rest).head c hc).1

theorem RelativeSelector.branchWrites {r : RelativeSelector} (h : r.selector.Printable n) :
    Branch.Writes (n + 1) g true r.text.toList (.relative r) := by
  refine ⟨RelativeSelector.writes (Selector.writes hg hsimple h) h.startsCompound, fun rest c hc => ?_⟩
  obtain ⟨k, s⟩ := r
  by_cases hk : k = .descendant
  · subst hk
    rw [RelativeSelector.text_descendant] at hc
    exact ((h.startsCompound rest).head c hc).1
  · rw [RelativeSelector.toList_text hk] at hc
    cases k with
    | descendant => exact absurd rfl hk
    | _ =>
      obtain rfl := Option.some.inj hc
      decide

end

theorem Branch.map_toSelector_absolute (ss : List Selector) : (ss.map absolute).map toSelector = ss := by
  rw [List.map_map]
  exact List.map_id ss

theorem Logical.text_ofBranches {op : Logical} (hop : op ≠ .relational) (branches : List Selector) :
    (op.ofBranches (branches.map .absolute)).text = ":" ++ op.name ++ "(" ++ Selector.textList branches ++ ")" := by
  cases op with
  | relational => exact absurd rfl hop
  | negation | matchesAny | weightless =>
    rw [ofBranches, Branch.map_toSelector_absolute, SimpleSelector.text]
    rfl

namespace SimpleSelector

/-- A pseudo-class with selectors, where the selectors are known to be read back one level deeper. -/
theorem writes_ofBranches {limit n : Nat} {s : SimpleSelector} (op : Logical) {texts : List (List Char)}
    {ps : List Branch} (hs : op.ofBranches ps = s)
    (htext : s.text.toList = [':'] ++ ((op.name.toList ++ ['(']) ++ ([',', ' '].intercalate texts ++ [')'])))
    (h : List.Forall₂ (Branch.Writes (n + 1) (.ofBudget .empty limit n) op.mode.relative) texts ps)
    (hne : op = .negation → ps ≠ []) (hpseudo : ∀ p ∈ ps, p.pseudoElement = none) :
    Writes (n + 1 + 1) EndsPart s.text.toList (Spelling (.ofBudget .empty limit (n + 1)) · s) := by
  have hkept : Logical.kept ps = ps := List.filter_eq_self.mpr fun p hp => by simp [hpseudo p hp]
  rw [htext]
  refine writes_logical (n + 1) _ (writes_arguments (.ofBudget .empty limit n) h hne) fun arguments harguments => ?_
  exact ⟨ps, harguments, by rw [hkept, hs]⟩

/-- The same for selectors that are no relative ones, as they are printed. -/
theorem writes_ofSelectors {limit n : Nat} {s : SimpleSelector} {branches : List Selector} (op : Logical)
    (hop : op ≠ .relational) (hs : op.ofBranches (branches.map .absolute) = s)
    (hsimple : ∀ s, Printable n s → Writes (n + 1) EndsPart s.text.toList (Spelling (.ofBudget .empty limit n) · s))
    (hne : op = .negation → branches ≠ []) (htrees : ∀ s ∈ branches, s.tree.Printable n)
    (hpseudo : ∀ s ∈ branches, s.pseudoElement = none) :
    Writes (n + 1 + 1) EndsPart s.text.toList (Spelling (.ofBudget .empty limit (n + 1)) · s) := by
  have hmode : op.mode.relative = false := beq_false_of_ne hop
  have hbranches : List.Forall₂ (Branch.Writes (n + 1) (.ofBudget .empty limit n) op.mode.relative)
      (branches.map (·.text.toList)) (branches.map .absolute) := by
    rw [hmode, List.forall₂_map_left_iff, List.forall₂_map_right_iff, List.forall₂_same]
    exact fun s hs => Selector.branchWrites (Grammar.namespaces_ofBudget ..) hsimple
      ⟨htrees s hs, by simp [hpseudo s hs]⟩
  refine writes_ofBranches op hs ?_ hbranches (by simpa using hne) ?_
  · rw [← hs, Logical.text_ofBranches hop, ← Selector.toList_textList]
    simp
  · simpa [Branch.pseudoElement, Branch.toSelector] using hpseudo

/-- **The text of a simple selector comes to values that spell it,** with as many levels as it needs. -/
theorem writes (limit : Nat) {n : Nat} {s : SimpleSelector} (h : s.Printable n) :
    Writes (n + 1) EndsPart s.text.toList (Spelling (.ofBudget .empty limit n) · s) := by
  -- The levels are what the induction is on: the selectors inside a pseudo-class have one less.
  induction n using Nat.strongRecOn generalizing s with
  | ind n ih =>
    cases h with
    | id hname => exact writes_id _ _ hname
    | className hname => exact writes_className _ _ hname
    | brackets htest => exact writes_brackets _ _ htest (Grammar.namespaces_ofBudget ..)
    | pseudoClass hname hlower hlegacy => exact writes_pseudoClass _ _ hname hlower hlegacy
    | @negation m branches hne htrees hpseudo =>
      exact writes_ofSelectors .negation (by decide) (congrArg negation (Branch.map_toSelector_absolute branches))
        (fun _ => ih m m.lt_succ_self) (fun _ => hne) htrees hpseudo
    | @matchesAny m branches htrees hpseudo =>
      exact writes_ofSelectors .matchesAny (by decide) (congrArg matchesAny (Branch.map_toSelector_absolute branches))
        (fun _ => ih m m.lt_succ_self) (by simp) htrees hpseudo
    | @weightless m branches htrees hpseudo =>
      exact writes_ofSelectors .weightless (by decide) (congrArg weightless (Branch.map_toSelector_absolute branches))
        (fun _ => ih m m.lt_succ_self) (by simp) htrees hpseudo
    | @relational m branches htrees hpseudo =>
      have hbranches : List.Forall₂ (Branch.Writes (m + 1) (.ofBudget .empty limit m) true)
          (branches.map (·.text.toList)) (branches.map .relative) := by
        rw [List.forall₂_map_left_iff, List.forall₂_map_right_iff, List.forall₂_same]
        exact fun r hr => RelativeSelector.branchWrites (Grammar.namespaces_ofBudget ..)
          (fun _ => ih m m.lt_succ_self) ⟨htrees r hr, by simp [hpseudo r hr]⟩
      refine writes_ofBranches .relational ?_ ?_ hbranches (by simp) ?_
      · rw [Logical.ofBranches, List.map_map]
        exact congrArg _ (List.map_id branches)
      · rw [text, ← RelativeSelector.toList_textList]
        simp [Logical.name]
      · simpa [Branch.pseudoElement, Branch.toSelector] using hpseudo

end SimpleSelector

/-! ### Texts -/

namespace SelectorList

/-- Lists of component values that a printed list comes to, at any depth that can be grouped. -/
theorem results_ofString {n : Nat} (hn : n < maxGroupDepth) {ss : List Selector} (hne : ss ≠ [])
    (h : ∀ s ∈ ss, s.Printable n) :
    results .empty { maxDepth := n } (ComponentValue.ofString (", ".intercalate (ss.map Selector.text))) =
      (ss.map Branch.absolute).map .ok := by
  have htext : (", ".intercalate (ss.map Selector.text)).toList = [',', ' '].intercalate (ss.map (·.text.toList)) := by
    rw [String.toList_intercalate, List.map_map]
    rfl
  have hbranches : List.Forall₂ (Branch.Writes (n + 1) (.ofBudget .empty n n) false) (ss.map (·.text.toList))
      (ss.map .absolute) := by
    rw [List.forall₂_map_left_iff, List.forall₂_map_right_iff, List.forall₂_same]
    exact fun s hs => Selector.branchWrites (Grammar.namespaces_ofBudget ..) (fun _ => SimpleSelector.writes n) (h s hs)
  have hwrites := writes_intercalate hbranches (by simpa using hne)
  rw [← htext] at hwrites
  exact (results_eq_ok_iff_strict .empty false n _ _).mpr (hwrites.ofString .nil hn)

/-- **Parsing undoes printing.** A list of printable selectors is read back from its text. -/
theorem parseString_intercalate_text {ss : List Selector} (hne : ss ≠ []) (h : ∀ s ∈ ss, s.Printable 32) :
    parseString .empty {} (", ".intercalate (ss.map Selector.text)) = .ok (ss.map .absolute) := by
  have hresults := results_ofString (by decide) hne h
  rw [parseString, collect_eq_ok_iff]
  exact hresults

/-- A namespace, a combinator, a pseudo-class and a pseudo-element; and a selector that says nothing. -/
theorem parseString_text_of_two :
    ", ".intercalate ([⟨.combined (.compound [.localName ⟨"a", "a"⟩, .inNamespace .empty]) .child
        [.negation [⟨.compound [.className "b"], none⟩]], some "before"⟩, ⟨.compound [], none⟩].map Selector.text) =
      "|a>:not(.b)::before, *" ∧
    parseString .empty {} "|a>:not(.b)::before, *" =
      .ok [.absolute ⟨.combined (.compound [.localName ⟨"a", "a"⟩, .inNamespace .empty]) .child
        [.negation [⟨.compound [.className "b"], none⟩]], some "before"⟩, .absolute ⟨.compound [], none⟩] := by
  have htext : ", ".intercalate ([⟨.combined (.compound [.localName ⟨"a", "a"⟩, .inNamespace .empty]) .child
      [.negation [⟨.compound [.className "b"], none⟩]], some "before"⟩, ⟨.compound [], none⟩].map Selector.text) =
      "|a>:not(.b)::before, *" := by
    decide
  have hname : LocalName.Printable ⟨"a", "a"⟩ := ⟨⟨List.all_eq_true.mp (by decide), by decide⟩, by decide⟩
  have hleft : CompoundSelector.Printable 32 [.localName ⟨"a", "a"⟩, .inNamespace .empty] :=
    @CompoundSelector.Printable.intro 32 (some ⟨"a", "a"⟩) [] true (fun _ h => Option.some.inj h ▸ hname) (by simp)
  have hinner : CompoundSelector.Printable 31 [.className "b"] :=
    @CompoundSelector.Printable.intro 31 none [.className "b"] false (by simp)
      (by simpa using .className ⟨List.all_eq_true.mp (by decide), by decide⟩)
  have hright : CompoundSelector.Printable 32 [.negation [⟨.compound [.className "b"], none⟩]] :=
    @CompoundSelector.Printable.intro 32 none [.negation [⟨.compound [.className "b"], none⟩]] false (by simp)
      (by simpa using .negation (by simp) (by simpa using .compound hinner) (by simp))
  have hnothing : CompoundSelector.Printable 32 [] :=
    @CompoundSelector.Printable.intro 32 none [] false (by simp) (by simp)
  refine ⟨htext, ?_⟩
  rw [← htext]
  refine parseString_intercalate_text (by simp) fun s hs => ?_
  rcases List.mem_cons.mp hs with rfl | hs
  · exact ⟨.combined (.compound hleft) hright, fun _ h => Option.some.inj h ▸ by decide⟩
  · obtain rfl := List.mem_singleton.mp hs
    exact ⟨.compound hnothing, by simp⟩

end SelectorList
end CssSelector
